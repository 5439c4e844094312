import SearchSyscall.Walk
import SearchSyscall.Decode

/-!
# The `search` system call

`SYSCALL_DEFINE5(search, paths, pattern, flags, buf, len)`, translated from `fs/read_write.c`.
After the user strings are copied in, the roots in `paths` (split at `|` by `strsep`) are searched
one after the other: by the walk when `ispattern` holds, otherwise by the literal shortcut, which
resolves the root and then the pattern below it.  Unless nothing was written, the closing two NUL
bytes are written over the last `|` and the byte after it, and the number of matches is returned.

`Env` collects what the kernel around the call decides: the file system, the caller's memory,
`access_ok` on the buffer and the two `kmalloc` calls that can fail.  A user string is `none` when
it cannot be read.
-/

namespace SearchSyscall

/-- The kernel's part of one invocation. -/
structure Env where
  fs : Fs
  mem : UserMem
  accessOk : Bool
  dsAlloc : Bool
  dirsAlloc : Bool

/-- `getname(s)`: the string, unless it cannot be read, is empty, or does not fit in `PATH_MAX`
bytes with its NUL. -/
def getname : Option (List Char) → Except Errno (List Char)
  | none => .error efault
  | some s =>
    if s = [] then .error enoent
    else if pathMax ≤ s.length then .error enametoolong
    else .ok s

theorem getname_some {s : List Char} (hs : s ≠ []) (hl : s.length < pathMax) :
    getname (some s) = .ok s := by
  simp only [getname, hs, if_false]
  rw [if_neg (Nat.not_le.mpr hl)]

theorem eq_of_getname {s t : List Char} (h : getname (some s) = .ok t) : t = s := by
  simp only [getname] at h
  split_ifs at h
  cases h
  rfl

/-- The roots loop when the pattern needs the walk (lines 1470-1480); `.error` is `goto exit` with
the status. -/
def walkRoots (c : Search) : List (List Char) → DirSearch → Except (Int × DirSearch) DirSearch
  | [], ds => .ok ds
  | r :: rs, ds =>
    let (st, ds) := searchDirectory c 0 { ds.setPath r with base := 0 }
    if st ≠ 0 then .error (st, ds)
    else if 0 < ds.results ∧ hasFlag c.flags searchStopatfirst then .ok ds
    else walkRoots c rs ds

/-- Lines 1484-1496 once `kern_path` found the root `r`: `ds->base` marks the end of the root, `/`
and the pattern are appended, and the reference to the root is dropped after the lookup below it. -/
def literalPath (c : Search) (r : List Char) (ds : DirSearch) : DirSearch :=
  let (p0, ds) := (ds.setPath r).newId
  let ds := ds.acquire (.path p0)
  let ds := { ds with base := ds.path.length }
  ((ds.strcat ['/']).strcat c.pattern).release (.path p0)

@[simp] theorem ledger_literalPath (c : Search) (r : List Char) (ds : DirSearch) :
    (literalPath c r ds).ledger = ds.ledger := rfl

@[simp] theorem literalPath_path (c : Search) (r : List Char) (ds : DirSearch) :
    (literalPath c r ds).path = r ++ '/' :: c.pattern := by
  simp [literalPath, DirSearch.newId]

@[simp] theorem literalPath_base (c : Search) (r : List Char) (ds : DirSearch) :
    (literalPath c r ds).base = r.length := rfl

/-- The roots loop of the literal shortcut (lines 1481-1518): `kern_path` on the root, then
`vfs_path_lookup` of the pattern below it; a missing root or target skips to the next root. -/
def literalRoots (c : Search) : List (List Char) → DirSearch → Except (Int × DirSearch) DirSearch
  | [], ds => .ok ds
  | r :: rs, ds =>
    match c.fs.resolve r with
    | .error e => if e = enoent then literalRoots c rs (ds.setPath r) else .error (e.neg, ds.setPath r)
    | .ok root =>
      let ds := literalPath c r ds
      match c.fs.lookup root root c.pattern with
      | .error e => if e = enoent then literalRoots c rs ds else .error (e.neg, ds)
      | .ok target =>
        let (st, status, ds) := statRef c target ds
        if status ≠ 0 then .error (status, ds) else
        let (r, ds) := copySearchResult c.flags
          (if hasFlag c.flags searchIncluderoot then ds.path else ds.path.drop ds.base) st ds
        if r ≠ 0 then .error (r, ds) else
        let ds := { ds with results := ds.results + 1, hits := ds.hits ++ [target] }
        if hasFlag c.flags searchStopatfirst then .ok ds else literalRoots c rs ds

/-- Lines 1520-1529: unless the cursor is still at `buf`, two NUL bytes are written over the last
`|` and the byte after it; the status is the count of bytes `copy_to_user` left uncopied if any,
else the number of matches. -/
def closeOutput (ds : DirSearch) : Int × DirSearch :=
  if ds.next ≠ 0 then
    let (left, ds) := ds.userWrite (ds.next - 1) ['\x00', '\x00']
    if left ≠ 0 then (left, ds) else (ds.results, ds)
  else (ds.results, ds)

theorem closeOutput_snd (ds : DirSearch) : (closeOutput ds).2 =
    if ds.next ≠ 0 then (ds.userWrite (ds.next - 1) ['\x00', '\x00']).2 else ds := by
  unfold closeOutput
  split
  · generalize ds.userWrite (ds.next - 1) ['\x00', '\x00'] = w
    obtain ⟨left, ds'⟩ := w
    dsimp only
    split <;> rfl
  · rfl

@[simp] theorem closeOutput_hits (ds : DirSearch) : (closeOutput ds).2.hits = ds.hits := by
  rw [closeOutput_snd]; split <;> rfl

@[simp] theorem closeOutput_emitted (ds : DirSearch) : (closeOutput ds).2.emitted = ds.emitted := by
  rw [closeOutput_snd]; split <;> rfl

/-- The end of the roots loop: `goto exit` with the status, or the closing write. -/
def finish : Except (Int × DirSearch) DirSearch → Int × DirSearch
  | .error r => r
  | .ok ds => closeOutput ds

/-- The labels `exit3`, `exit2`, `exit1`: `putname(ds->pattern)`, `putname(ds->paths)`,
`kfree(ds)`; `off` is how far `ds->pattern` was advanced past leading `/`. -/
def putNames (off : Nat) (ds : DirSearch) : DirSearch :=
  ((ds.release (.name .pattern off)).release (.name .paths 0)).release .ds

@[simp] theorem ledger_putNames (off : Nat) (ds : DirSearch) : (putNames off ds).ledger = ds.ledger :=
  rfl

/-- The state before the call does anything. -/
def DirSearch.init (mem : UserMem) (len : Nat) : DirSearch :=
  ⟨0, 0, [], 0, 0, len, mem, [], [], [], [], 0, 0⟩

/-- `search(paths, pattern, flags, buf, len)`: the returned status and the final state. -/
def search (env : Env) (paths pattern : Option (List Char)) (flags : Nat) (len : UInt64) :
    Int × DirSearch :=
  let ds := DirSearch.init env.mem len.toNat
  if !env.accessOk then (efault.neg, ds) else
  if !env.dsAlloc then (enomem.neg, ds) else
  let ds := ds.acquire .ds
  match getname paths with
  | .error e => (e.neg, ds.release .ds)
  | .ok ps =>
    let ds := ds.acquire (.name .paths 0)
    match getname pattern with
    | .error e => (e.neg, (ds.release (.name .paths 0)).release .ds)
    | .ok pat =>
      let ds := ds.acquire (.name .pattern 0)
      let c : Search := ⟨env.fs, pat, flags, isrecursive pat⟩
      if ispattern pat then
        if !env.dirsAlloc then (0, putNames 0 ds) else
        let r := finish (walkRoots c (ps.splitOn '|') (ds.acquire .dirs))
        (r.1, putNames 0 (r.2.release .dirs))
      else
        let off := (pat.takeWhile (· = '/')).length
        let r := finish (literalRoots { c with pattern := pat.drop off } (ps.splitOn '|') ds)
        (r.1, putNames off r.2)

/-- What `search` does, up to its resource bookkeeping: it gives up before searching, with nothing
output and a negative status, or `0` when `ds->dirs` could not be allocated; or it searches the
roots, by the walk or by the literal shortcut, from a state with nothing output and status `0`, and
finishes. -/
theorem search_cases (env : Env) (paths pattern : Option (List Char)) (flags : Nat) (len : UInt64) :
    ((search env paths pattern flags len).1 < 0 ∨
        env.dirsAlloc = false ∧ (search env paths pattern flags len).1 = 0) ∧
      (search env paths pattern flags len).2.ledger = (DirSearch.init env.mem len.toNat).ledger ∨
    ∃ (ps pat : List Char) (ds : DirSearch), getname paths = .ok ps ∧ getname pattern = .ok pat ∧
      ds.ledger = (DirSearch.init env.mem len.toNat).ledger ∧ ds.status = 0 ∧
      let o := if ispattern pat then walkRoots ⟨env.fs, pat, flags, isrecursive pat⟩ (ps.splitOn '|') ds
        else literalRoots ⟨env.fs, pat.drop (pat.takeWhile (· = '/')).length, flags, isrecursive pat⟩
          (ps.splitOn '|') ds
      (ispattern pat → env.dirsAlloc) ∧
      (search env paths pattern flags len).1 = (finish o).1 ∧
      (search env paths pattern flags len).2.ledger = (finish o).2.ledger := by
  unfold search
  split
  · exact .inl ⟨.inl (Errno.neg_lt_zero _), rfl⟩
  split
  · exact .inl ⟨.inl (Errno.neg_lt_zero _), rfl⟩
  split
  · exact .inl ⟨.inl (Errno.neg_lt_zero _), rfl⟩
  rename_i ps hps
  split
  · exact .inl ⟨.inl (Errno.neg_lt_zero _), rfl⟩
  rename_i pat hpat
  by_cases hp : ispattern pat
  · by_cases hd : env.dirsAlloc
    · refine .inr ⟨ps, pat, ((((DirSearch.init env.mem len.toNat).acquire .ds).acquire
        (.name .paths 0)).acquire (.name .pattern 0)).acquire .dirs, hps, hpat, ?_, ?_, ?_⟩
      · rfl
      · rfl
      simp only [hp, hd, if_true, Bool.not_true, Bool.false_eq_true, if_false, ledger_putNames,
        DirSearch.ledger_release]
      exact ⟨fun _ => trivial, trivial, trivial⟩
    · simp only [hp, hd, if_true, Bool.not_false]
      exact .inl ⟨.inr ⟨trivial, trivial⟩, rfl⟩
  · refine .inr ⟨ps, pat, (((DirSearch.init env.mem len.toNat).acquire .ds).acquire
      (.name .paths 0)).acquire (.name .pattern 0), hps, hpat, ?_, ?_, ?_⟩
    · rfl
    · rfl
    simp only [hp, Bool.false_eq_true, if_false, ledger_putNames]
    exact ⟨fun h => h.elim, trivial, trivial⟩

/-! ### Runs on small trees -/

/-- A directory that one `vfs_readdir` call lists as `ents`. -/
def dirNode (ents : List Dirent) : Inode := ⟨true, none, none, none, [.ok ents], .ok Kstat.zero⟩

/-- A regular file. -/
def fileNode : Inode := ⟨false, none, none, none, [], .ok Kstat.zero⟩

/-- `/t` holding the file `a` and the directory `s`, which holds the file `b`. -/
def smallFs : Fs where
  node
    | [] => some (dirNode [⟨['t'], true⟩])
    | [['t']] => some (dirNode [⟨['a'], false⟩, ⟨['s'], true⟩])
    | [['t'], ['a']] => some fileNode
    | [['t'], ['s']] => some (dirNode [⟨['b'], false⟩])
    | [['t'], ['s'], ['b']] => some fileNode
    | _ => none
  cwd := []
  mountPath _ := ['/']

/-- The five nodes of `smallFs`: what holds of each holds of every node. -/
theorem smallFs_node_elim {motive : Loc → Inode → Prop}
    (root : motive [] (dirNode [⟨['t'], true⟩]))
    (t : motive [['t']] (dirNode [⟨['a'], false⟩, ⟨['s'], true⟩]))
    (ta : motive [['t'], ['a']] fileNode) (ts : motive [['t'], ['s']] (dirNode [⟨['b'], false⟩]))
    (tsb : motive [['t'], ['s'], ['b']] fileNode) {loc : Loc} {i : Inode}
    (h : smallFs.node loc = some i) : motive loc i := by
  dsimp only [smallFs] at h
  split at h <;> cases h <;> assumption

/-- A caller whose buffer starts a writable range of 100 bytes. -/
def bufMem : UserMem := ⟨fun a => 0 ≤ a ∧ a < 100, fun _ => ' '⟩

def smallEnv : Env := ⟨smallFs, bufMem, true, true, true⟩

/-- A native search that writes one record of five bytes, `0|x||`, and returns `5`. -/
def oneRecordHook : NativeSearch := ⟨fun _ _ _ _ _ => ([(0, "0|x||".toList)], 5)⟩

/-- `/t` on a filesystem whose `f_op->search` is `oneRecordHook`. -/
def hookFs : Fs where
  node
    | [] => some (dirNode [⟨['t'], true⟩])
    | [['t']] => some { dirNode [] with search := some oneRecordHook }
    | _ => none
  cwd := []
  mountPath _ := ['/']

def hookEnv : Env := ⟨hookFs, bufMem, true, true, true⟩

/-- When the provider fills the remaining buffer exactly, the closing write
`copy_to_user(ds->next-1, "\0\0", 2)` reaches the byte after the buffer. -/
theorem search_closing_write_past_buffer :
    ((4 : Int), 2) ∈ (search hookEnv (some "/t".toList) (some "*".toList) 0 5).2.writes := by
  decide

/-- The provider's count of bytes is also added to the count of matches. -/
theorem search_counts_provider_bytes :
    (search hookEnv (some "/t".toList) (some "*".toList) 0 100).1 = 5 ∧
      (decodeRecords (finalContents (search hookEnv (some "/t".toList) (some "*".toList) 0 100).2)).length = 1 := by
  decide

/-- For a pattern without wildcards, `ds->pattern` has been moved past its leading `/` when it is
given to `putname`. -/
theorem search_putname_moved_pattern :
    Event.release (.name .pattern 1) ∈ (search smallEnv (some "/t".toList) (some "/x".toList) 0 100).2.events ∧
      Event.release (.name .pattern 0) ∉ (search smallEnv (some "/t".toList) (some "/x".toList) 0 100).2.events := by
  decide

/-- A failed allocation of `ds->dirs` leaves the status at `0`. -/
theorem search_dirs_alloc_failure :
    (search { smallEnv with dirsAlloc := false } (some "/t".toList) (some "*".toList) 0 100).1 = 0 := by
  decide

/-- Below `/t`, a name of `x`s other than `a` and `s` names nothing. -/
private theorem smallFs_lookup_xs (xs : List Char) (hne : xs ≠ []) (hx : xs.head? = some 'x')
    (hsl : '/' ∉ xs) : smallFs.lookup [['t']] [['t']] xs = .error enoent := by
  have hsplit : xs.splitOn '/' = [xs] :=
    List.splitOnP_eq_single _ _ (fun c hc h => hsl (by simpa using (beq_iff_eq.mp h) ▸ hc))
  obtain ⟨y, ys, rfl⟩ := List.exists_cons_of_ne_nil hne
  obtain rfl : y = 'x' := by simpa using hx
  rw [Fs.lookup, if_neg (List.cons_ne_nil _ _), hsplit]
  rfl

/-- The literal shortcut puts `/t`, `/` and the pattern after its leading `/` in the path buffer
whatever the pattern's length, here for a pattern `/x…x` that names nothing below `/t`. -/
private theorem search_literal_longest (n : Nat) (hn : 0 < n) (hlen : n + 1 < pathMax) :
    (search smallEnv (some ['/', 't']) (some ('/' :: List.replicate n 'x')) 0 100).2.longest =
      n + 3 := by
  obtain ⟨m, rfl⟩ : ∃ m, n = m + 1 := ⟨n - 1, by omega⟩
  have hg := getname_some (s := '/' :: List.replicate (m + 1) 'x') (List.cons_ne_nil _ _)
    (by simpa using hlen)
  have hr : getname (some ['/', 't']) = .ok ['/', 't'] := rfl
  have hp : ispattern ('/' :: List.replicate (m + 1) 'x') = false := by
    simp [ispattern, List.mem_replicate]
  have hoff : (('/' :: List.replicate (m + 1) 'x').takeWhile (· = '/')).length = 1 := by
    simp [List.replicate_succ]
  have hsp : ['/', 't'].splitOn '|' = [['/', 't']] := by decide
  have hres : smallFs.resolve ['/', 't'] = .ok [['t']] := rfl
  have hlk := smallFs_lookup_xs (List.replicate (m + 1) 'x') (by simp)
    (by simp [List.replicate_succ]) (by simp [List.mem_replicate])
  simp only [search, smallEnv, hg, hr, hp, Bool.not_true, Bool.false_eq_true, if_false]
  rw [hoff, hsp, List.drop_one, List.tail_cons, literalRoots, hres]
  dsimp only
  rw [hlk]
  simp only [if_true, literalRoots, finish, closeOutput]
  simp [literalPath, DirSearch.strcat, DirSearch.setPath, DirSearch.newId, DirSearch.acquire,
    DirSearch.release, putNames, DirSearch.init]

/-- A root of two bytes and a pattern of `PATH_MAX - 1` bytes, both accepted by `getname`, make the
literal shortcut store a string of `PATH_MAX + 1` bytes in `char path[PATH_MAX+1]`. -/
theorem search_path_overflow :
    getname (some ('/' :: List.replicate 4094 'x')) = .ok ('/' :: List.replicate 4094 'x') ∧
      pathMax <
        (search smallEnv (some ['/', 't']) (some ('/' :: List.replicate 4094 'x')) 0 100).2.longest := by
  refine ⟨getname_some (List.cons_ne_nil _ _) (by rw [List.length_cons, List.length_replicate]; decide), ?_⟩
  rw [search_literal_longest 4094 (by decide) (by decide)]
  decide

end SearchSyscall
