import SearchSyscall.ReadWrite.Syscalls

/-!
# What a call leaves alone

None of the calls of this file opens or closes a descriptor, and each moves only the open files
its own descriptors name: `lseek`, `read` and their kin the one `fd` names, `sendfile` its input
and its output file.

* `step_keepsBut`: one call keeps the descriptor table and every open file that none of its
  descriptors names (`Sys.KeepsBut`);
* `run_files_untouched`: so does a whole run, for every open file that no descriptor of any of
  its calls names.
-/

namespace SearchSyscall

variable {W : Type}

/-- The descriptors a call names: the one it seeks or transfers on, or the output and the input of
`sendfile`. -/
def Call.fds : Call → List Nat
  | .lseek fd .. | .llseek fd .. | .read fd .. | .write fd .. | .pread64 fd .. | .pwrite64 fd ..
  | .readv fd .. | .writev fd .. | .preadv fd .. | .pwritev fd .. => [fd]
  | .sendfile outFd inFd .. | .sendfile64 outFd inFd .. => [outFd, inFd]

/-- `t` has the descriptor table of `s`, and every open file of `s` that none of the descriptors
`fds` names. -/
def Sys.KeepsBut (s t : Sys W) (fds : List Nat) : Prop :=
  t.fdt = s.fdt ∧ ∀ j, (∀ fd ∈ fds, s.fget fd ≠ some j) → t.files j = s.files j

namespace Sys

theorem KeepsBut.of_eq {s t : Sys W} {fds : List Nat} (h1 : t.fdt = s.fdt) (h2 : t.files = s.files) :
    s.KeepsBut t fds :=
  ⟨h1, fun j _ => congrFun h2 j⟩

theorem KeepsBut.refl (s : Sys W) (fds : List Nat) : s.KeepsBut s fds := .of_eq rfl rfl

/-- A state with the table and the files of one that keeps them keeps them too. -/
theorem KeepsBut.of_frame {s t t' : Sys W} {fds : List Nat} (h : s.KeepsBut t fds)
    (h1 : t'.fdt = t.fdt) (h2 : t'.files = t.files) : s.KeepsBut t' fds :=
  ⟨h1.trans h.1, fun j hj => (congrFun h2 j).trans (h.2 j hj)⟩

/-- Replacing an open file that one of the descriptors names. -/
theorem KeepsBut.setFile {s t : Sys W} {fds : List Nat} (h : s.KeepsBut t fds) {fd id : Nat}
    (hfd : fd ∈ fds) (hid : s.fget fd = some id) (f : OpenFile W) :
    s.KeepsBut (t.setFile id f) fds := by
  refine ⟨h.1, fun j hj => ?_⟩
  rw [files_setFile, if_neg (fun e : j = id => hj fd hfd (e ▸ hid))]
  exact h.2 j hj

theorem KeepsBut.setWorld {s t : Sys W} {fds : List Nat} (h : s.KeepsBut t fds) (w : W) :
    s.KeepsBut (t.setWorld w) fds :=
  h

end Sys

/-! ### One call -/

private theorem keepsBut_sysLseek (K : Kernel W) (s : Sys W) (fd : Nat) (offset : Int) (origin : Nat) :
    s.KeepsBut (sysLseek K s fd offset origin).2 [fd] := by
  rcases sysLseek_cases K s fd offset origin with ⟨e, -, h⟩ | ⟨id, hid, -, h⟩ <;> rw [h]
  · exact .refl s _
  · exact (Sys.KeepsBut.refl s _).setFile (List.mem_singleton_self fd) hid _

private theorem keepsBut_sysLlseek (K : Kernel W) (s : Sys W) (fd : Nat) (high low : UInt64) (result : Int)
    (origin : Nat) : s.KeepsBut (sysLlseek K s fd high low result origin).2 [fd] := by
  rcases sysLlseek_cases K s fd high low result origin with h | ⟨id, w, hid, h⟩ <;> rw [h]
  · exact .refl s _
  · exact ((Sys.KeepsBut.refl s _).setFile (List.mem_singleton_self fd) hid _).setWorld w

theorem fdt_vfsReadWrite (K : Kernel W) (rw : Rw) (s : Sys W) (id : Nat) (buf : Int) (count : UInt64)
    (pos : Int) : (vfsReadWrite K rw s id buf count pos).2.2.fdt = s.fdt := by
  rcases vfsReadWrite_cases K rw s id buf count pos with ⟨e, -, h⟩ | ⟨fn, -, -, h⟩ <;> simp only [h]
  -- the transfer: accounting, events and the world only
  simp only [transferAccounted]
  split_ifs <;> simp only [Sys.fdt_incCalls, Sys.fdt_addChars, Sys.fdt_notify, Sys.fdt_setWorld]

theorem keepsBut_sysReadWrite (K : Kernel W) (rw : Rw) (s : Sys W) (fd : Nat) (buf : Int)
    (count : UInt64) : s.KeepsBut (sysReadWrite K rw s fd buf count).2 [fd] := by
  unfold sysReadWrite
  split
  · exact .refl s _
  next id hid =>
  exact (Sys.KeepsBut.of_eq (fdt_vfsReadWrite K rw s id buf count _)
    (files_vfsReadWrite K rw s id buf count _)).setFile (List.mem_singleton_self fd) hid _

theorem keepsBut_sysPreadPwrite (K : Kernel W) (rw : Rw) (s : Sys W) (fd : Nat) (buf : Int)
    (count : UInt64) (pos : Int) : s.KeepsBut (sysPreadPwrite K rw s fd buf count pos).2 [fd] := by
  refine .of_eq ?_ (files_sysPreadPwrite K rw s fd buf count pos)
  unfold sysPreadPwrite
  split_ifs
  · rfl
  · split
    · rfl
    · split_ifs
      · rfl
      · exact fdt_vfsReadWrite K rw s _ buf count pos

theorem fdt_vfsReadvWritev (K : Kernel W) (rw : Rw) (s : Sys W) (id : Nat) (vec : Int) (vlen : Nat)
    (pos : Int) : (vfsReadvWritev K rw s id vec vlen pos).2.2.fdt = s.fdt := by
  obtain ⟨w, ns, h⟩ := vfsReadvWritev_frame K rw s id vec vlen pos
  rw [h]

theorem fdt_vectorAccounted (rw : Rw) (r : Int × Sys W) : (vectorAccounted rw r).2.fdt = r.2.fdt := by
  unfold vectorAccounted
  split_ifs <;> simp only [Sys.fdt_incCalls, Sys.fdt_addChars]

theorem keepsBut_sysReadvWritev (K : Kernel W) (rw : Rw) (s : Sys W) (fd : Nat) (vec : Int)
    (vlen : Nat) : s.KeepsBut (sysReadvWritev K rw s fd vec vlen).2 [fd] := by
  unfold sysReadvWritev
  refine .of_frame ?_ (fdt_vectorAccounted rw _) (files_vectorAccounted rw _)
  split
  · exact .refl s _
  next id hid =>
  exact (Sys.KeepsBut.of_eq (fdt_vfsReadvWritev K rw s id vec vlen _)
    (files_vfsReadvWritev K rw s id vec vlen _)).setFile (List.mem_singleton_self fd) hid _

theorem keepsBut_sysPreadvPwritev (K : Kernel W) (rw : Rw) (s : Sys W) (fd : Nat) (vec : Int)
    (vlen : Nat) (posL posH : UInt64) :
    s.KeepsBut (sysPreadvPwritev K rw s fd vec vlen posL posH).2 [fd] := by
  refine .of_eq ?_ (files_sysPreadvPwritev K rw s fd vec vlen posL posH)
  rw [sysPreadvPwritev]
  split_ifs
  · rfl
  · rw [fdt_vectorAccounted]
    split
    · rfl
    · split_ifs
      · rfl
      · exact fdt_vfsReadvWritev K rw s _ vec vlen _

/-- `do_splice_direct` and the accounting after it move the input and the output file only. -/
private theorem keepsBut_spliceAccounted (K : Kernel W) (s : Sys W) {i o : Nat} (ppos : Option Int)
    (pos : Int) (count : UInt64) (max : Int) {fds : List Nat} {outFd inFd : Nat}
    (hout : outFd ∈ fds) (ho : s.fget outFd = some o) (hin : inFd ∈ fds) (hi : s.fget inFd = some i) :
    s.KeepsBut (spliceAccounted K s i o ppos pos count max).2.2 fds := by
  unfold spliceAccounted
  dsimp only
  have hp := ((Sys.KeepsBut.refl s fds).setFile hout ho
    { s.files o with pos := (K.spliceDirect s.world i pos o (s.files o).pos count).2.2.1 }).setWorld
    (K.spliceDirect s.world i pos o (s.files o).pos count).2.2.2
  cases ppos <;> split_ifs
  · exact hp.setFile hin hi _
  · exact hp.setFile hin hi _
  · exact hp
  · exact hp

theorem keepsBut_sysSendfileWith (max : Int) (K : Kernel W) (s : Sys W) (outFd inFd : Nat)
    (offset : Option Int) (count : UInt64) :
    s.KeepsBut (sysSendfileWith max K s outFd inFd offset count).2 [outFd, inFd] := by
  have hdo : ∀ ppos m, s.KeepsBut (doSendfile K s outFd inFd ppos count m).2.2 [outFd, inFd] :=
    fun ppos m => by
      rcases doSendfile_cases K s outFd inFd ppos count m with
        ⟨e, -, h⟩ | ⟨i, o, c, hi, ho, -, -, -, h⟩ <;> rw [h]
      · exact .refl s _
      · exact keepsBut_spliceAccounted K s ppos _ c _ (List.mem_cons_self outFd [inFd]) ho
          (List.mem_cons_of_mem outFd (List.mem_singleton_self inFd)) hi
  rcases sysSendfileWith_cases max K s outFd inFd offset count with h | ⟨ppos, m, w, h⟩ <;> rw [h]
  · exact .refl s _
  · exact (hdo ppos m).setWorld w

/-- One call keeps the descriptor table and every open file that none of its descriptors names. -/
theorem step_keepsBut (K : Kernel W) (s : Sys W) (c : Call) : s.KeepsBut (step K s c).2 c.fds := by
  cases c with
  | lseek fd offset origin => exact keepsBut_sysLseek K s fd _ origin
  | llseek fd high low result origin => exact keepsBut_sysLlseek K s fd high low result origin
  | read fd buf count => exact keepsBut_sysReadWrite K .read s fd buf count
  | write fd buf count => exact keepsBut_sysReadWrite K .write s fd buf count
  | pread64 fd buf count pos => exact keepsBut_sysPreadPwrite K .read s fd buf count _
  | pwrite64 fd buf count pos => exact keepsBut_sysPreadPwrite K .write s fd buf count _
  | readv fd vec vlen => exact keepsBut_sysReadvWritev K .read s fd vec vlen
  | writev fd vec vlen => exact keepsBut_sysReadvWritev K .write s fd vec vlen
  | preadv fd vec vlen posL posH => exact keepsBut_sysPreadvPwritev K .read s fd vec vlen posL posH
  | pwritev fd vec vlen posL posH => exact keepsBut_sysPreadvPwritev K .write s fd vec vlen posL posH
  | sendfile outFd inFd offset count => exact keepsBut_sysSendfileWith _ K s outFd inFd offset count
  | sendfile64 outFd inFd offset count => exact keepsBut_sysSendfileWith _ K s outFd inFd offset count

/-! ### A run -/

/-- A run keeps the descriptor table, and every open file that no descriptor of its calls names. -/
theorem run_files_untouched (K : Kernel W) (s : Sys W) (cs : List Call) {j : Nat}
    (hj : ∀ c ∈ cs, ∀ fd ∈ c.fds, s.fget fd ≠ some j) :
    (run K s cs).fdt = s.fdt ∧ (run K s cs).files j = s.files j := by
  induction cs generalizing s with
  | nil => exact ⟨rfl, rfl⟩
  | cons c cs ih =>
    obtain ⟨hfdt, hfiles⟩ := step_keepsBut K s c
    -- the call keeps the table, so the later calls' descriptors name what they named before
    have hfget : (step K s c).2.fget = s.fget := funext fun fd => congrFun hfdt (fd % 2 ^ 32)
    obtain ⟨h1, h2⟩ := ih (step K s c).2
      fun c' hc' fd hfd => hfget ▸ hj c' (List.mem_cons_of_mem c hc') fd hfd
    exact ⟨h1.trans hfdt, h2.trans (hfiles j (hj c (List.mem_cons_self c cs)))⟩

theorem run_files_untouched_quiet :
    (∀ c ∈ [Call.read 3 0 4096, .lseek 3 ⟨0, by decide⟩ seekSet], ∀ fd ∈ c.fds, Sys.quiet.fget fd ≠ some 1) ∧
      (run Kernel.quiet Sys.quiet [.read 3 0 4096, .lseek 3 ⟨0, by decide⟩ seekSet]).fdt = Sys.quiet.fdt ∧
      (run Kernel.quiet Sys.quiet [.read 3 0 4096, .lseek 3 ⟨0, by decide⟩ seekSet]).files 1 =
        Sys.quiet.files 1 :=
  have hj : ∀ c ∈ [Call.read 3 0 4096, .lseek 3 ⟨0, by decide⟩ seekSet], ∀ fd ∈ c.fds,
      Sys.quiet.fget fd ≠ some 1 := by decide
  ⟨hj, run_files_untouched Kernel.quiet Sys.quiet _ hj⟩

end SearchSyscall
