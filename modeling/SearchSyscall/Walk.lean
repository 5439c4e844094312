import SearchSyscall.Match
import SearchSyscall.State

/-!
# The directory walk

`search_directory(ds, n)`, translated from `fs/read_write.c`.  The walk opens the directory whose
path is in `ds->path`, replaces that path by its canonical form, then either hands the directory to
its filesystem's native search or lists it chunk by chunk; for each entry it appends `/name` to the
path, matches the part of the path after `ds->base` against the pattern, reports a match, descends
into subdirectories the match allows, and cuts the path back.

Jumps to the label `exit` out of the loops are the `.error` side of `Except DirSearch DirSearch`.
The recursion is on the number of levels left, `TREE_DEPTH - n`, so that the test
`n >= TREE_DEPTH` is the case of no level left (`searchDirectory_of_le`, `searchDirectory_of_lt`).
-/

namespace SearchSyscall

open SearchMatched

/-- What stays fixed during one invocation: the file system, `ds->pattern`, `ds->flags` and
`ds->isrecursive`. -/
structure Search where
  fs : Fs
  pattern : List Char
  flags : Nat
  isrecursive : Bool

/-- `vfs_getattr` on a found target under `SEARCH_METADATA`, a zeroed `kstat` otherwise (lines
1370-1374, 1500-1503): the `kstat` and the status. -/
def statTarget (c : Search) (target : Loc) : Kstat × Int :=
  if hasFlag c.flags searchMetadata then
    match c.fs.getattr target with
    | .ok st => (st, 0)
    | .error err => (Kstat.zero, err.neg)
  else (Kstat.zero, 0)

theorem statTarget_snd_le (c : Search) (target : Loc) : (statTarget c target).2 ≤ 0 := by
  unfold statTarget
  split
  · split
    · exact Int.le_refl 0
    · exact Int.le_of_lt (Errno.neg_lt_zero _)
  · exact Int.le_refl 0

/-- `vfs_getattr` through the reference to the target that the lookup took, dropped again by
`path_put` (lines 1368-1376, 1497-1503): the `kstat`, the status, and the state. -/
def statRef (c : Search) (target : Loc) (ds : DirSearch) : Kstat × Int × DirSearch :=
  let (p, ds) := ds.newId
  let (st, status) := statTarget c target
  (st, status, (ds.acquire (.path p)).release (.path p))

/-- Lines 1368-1389: a matched entry is looked up, optionally stat'ed, and reported; a full buffer
or any failure ends the walk, and so does `SEARCH_STOPATFIRST` after the report. -/
def matchedEntry (c : Search) (loc : Loc) (e : Dirent) (ds : DirSearch) :
    Except DirSearch DirSearch :=
  match c.fs.lookup loc loc e.name with
  | .error err => .error { ds with status := err.neg }
  | .ok target =>
    let (st, status, ds) := statRef c target ds
    let ds := { ds with status := status }
    if ds.status ≠ 0 then .error ds else
    let (r, ds) := copySearchResult c.flags
      (if hasFlag c.flags searchIncluderoot then ds.path else e.name) st ds
    let ds := { ds with status := r }
    if r ≠ 0 then .error ds else
    let ds := { ds with results := ds.results + 1, hits := ds.hits ++ [loc ++ [e.name]] }
    if hasFlag c.flags searchStopatfirst then .error ds else .ok ds

/-- Lines 1391-1396: the recursive call on a subdirectory, which ends the walk on failure or once a
match has been found under `SEARCH_STOPATFIRST`. -/
def descend (c : Search) (child : DirSearch → Int × DirSearch) (ds : DirSearch) :
    Except DirSearch DirSearch :=
  let (r, ds) := child ds
  let ds := { ds with status := r }
  if r ≠ 0 then .error ds
  else if 0 < ds.results ∧ hasFlag c.flags searchStopatfirst then .error ds
  else .ok ds

/-- Whether the walk descends into the entry `e` after the outcome `how`. -/
def descends (c : Search) (e : Dirent) (how : SearchMatched) : Prop :=
  e.isDir ∧ e.name ≠ ['.'] ∧ e.name ≠ ['.', '.'] ∧ (how = matchPartial ∨ c.isrecursive)

instance (c : Search) (e : Dirent) (how : SearchMatched) : Decidable (descends c e how) :=
  inferInstanceAs (Decidable (_ ∧ _))

/-- The `for` loop over the entries of one chunk (lines 1359-1399); `dir` is the length of the
directory's path, where `*ds->dirs[n].dir = '\0'` cuts the path after each entry. -/
def searchEntries (c : Search) (child : DirSearch → Int × DirSearch) (loc : Loc) (dir : Nat) :
    List Dirent → DirSearch → Except DirSearch DirSearch
  | [], ds => .ok ds
  | e :: es, ds =>
    let ds := (ds.strcat ['/']).strcat e.name
    let how := matchPathname (ds.path.drop ds.base) c.pattern
    (if how = matchSuccess then matchedEntry c loc e ds else .ok ds) >>= fun ds =>
    (if descends c e how then descend c child ds else .ok ds) >>= fun ds =>
    searchEntries c child loc dir es { ds with path := ds.path.take dir }

/-- The `do … while` loop over `vfs_readdir` calls (lines 1351-1401): it stops at a call that
fails or lists nothing. -/
def readEntries (c : Search) (child : DirSearch → Int × DirSearch) (loc : Loc) :
    List (Except Errno (List Dirent)) → DirSearch → Except DirSearch DirSearch
  | [], ds => .ok { ds with status := 0 }
  | .error e :: _, ds => .error { ds with status := e.neg }
  | .ok [] :: _, ds => .ok { ds with status := 0 }
  | .ok (e :: es) :: rest, ds =>
    searchEntries c child loc ds.path.length (e :: es) { ds with status := 0 } >>= fun ds =>
    readEntries c child loc rest ds

/-- `filp_close` at the label `exitn`, then `return ds->status`. -/
def closeDir (fp : Nat) (ds : DirSearch) : Int × DirSearch :=
  let ds := ds.release (.file fp)
  (ds.status, ds)

/-- Lines 1320-1349: the subtree is handed to `f_op->search`, whose count is added to both
`ds->results` and `ds->next`; a negative count leaves by `goto out`, past `filp_close`.  The
`kmalloc`'d `pathbuf` is never freed. -/
def delegate (c : Search) (loc : Loc) (hook : NativeSearch) (fp : Nat) (ds : DirSearch) :
    Int × DirSearch :=
  let (pb, ds) := ds.newId
  let ds := ds.acquire (.pathbuf pb)
  let mountRealPath := c.fs.mountPath loc
  let relPath := ds.path.drop mountRealPath.length
  let (ws, code) := hook.run mountRealPath relPath c.pattern c.flags ds.len
  let ds := ws.foldl (fun ds w => (ds.userWrite (ds.next + w.1) w.2).2) ds
  let ds := { ds with results := ds.results + code, next := ds.next + code }
  if code < 0 then (code, { ds with status := code })
  else closeDir fp { ds with len := sizeSub ds.len code.toNat }

/-- The open errors after which the walk skips a directory (line 1307). -/
def skipsOpenError (e : Errno) : Prop := e = enoent ∨ e = eperm ∨ e = eacces ∨ e = enodev

instance (e : Errno) : Decidable (skipsOpenError e) := inferInstanceAs (Decidable (_ ∨ _))

/-- The state a step of the walk leaves, whether it goes on or jumps to `exit`. -/
def stateOf : Except DirSearch DirSearch → DirSearch
  | .ok ds => ds
  | .error ds => ds

@[simp] theorem stateOf_ok (ds : DirSearch) : stateOf (.ok ds) = ds := rfl
@[simp] theorem stateOf_error (ds : DirSearch) : stateOf (.error ds) = ds := rfl

/-- Lines 1312-1410, once the directory at `loc` is open as `fp`: the path is replaced by the
canonical one (and `ds->base` set on the first level), the subtree delegated or listed with
`child` searching the subdirectories, and the directory closed on every way out but the failed
delegation. -/
def searchOpened (c : Search) (child : DirSearch → Int × DirSearch) (loc : Loc) (i : Inode)
    (fp : Nat) (ds : DirSearch) : Int × DirSearch :=
  match abspath loc with
  | .error e => closeDir fp { ds with status := e.neg }
  | .ok canon =>
    let ds := { ds.setPath canon with status := 0 }
    let ds := if ds.base = 0 then { ds with base := ds.path.length } else ds
    match i.search with
    | some hook => delegate c loc hook fp ds
    | none => closeDir fp (stateOf (readEntries c child loc i.readdir ds))

/-- `search_directory` with `k` levels left. -/
def searchLevels (c : Search) : Nat → DirSearch → Int × DirSearch
  | 0, ds => (0, ds)
  | k + 1, ds =>
    let ds := { ds with status := 0 }
    match c.fs.filpOpen ds.path with
    | .error e =>
      let ds := { ds with status := e.neg }
      if skipsOpenError e then (0, ds) else (ds.status, ds)
    | .ok (loc, i) =>
      let (fp, ds) := ds.newId
      searchOpened c (searchLevels c k) loc i fp (ds.acquire (.file fp))

theorem searchLevels_succ (c : Search) (k : Nat) (ds : DirSearch) :
    searchLevels c (k + 1) ds =
      match c.fs.filpOpen ds.path with
      | .error e => (if skipsOpenError e then 0 else e.neg, { ds with status := e.neg })
      | .ok (loc, i) =>
        searchOpened c (searchLevels c k) loc i ds.fresh
          ({ ds with status := 0, fresh := ds.fresh + 1 }.acquire (.file ds.fresh)) := by
  simp only [searchLevels]
  split <;> [split; rfl] <;> rfl

/-- `search_directory(ds, n)`. -/
def searchDirectory (c : Search) (n : Nat) (ds : DirSearch) : Int × DirSearch :=
  searchLevels c (treeDepth - n) ds

private theorem searchDirectory_of_le {c : Search} {n : Nat} (h : treeDepth ≤ n) (ds : DirSearch) :
    searchDirectory c n ds = (0, ds) := by
  simp [searchDirectory, Nat.sub_eq_zero_of_le h, searchLevels]

/-- Below `TREE_DEPTH` a level runs, and its children are searched at the next depth. -/
theorem searchDirectory_of_lt {c : Search} {n : Nat} (h : n < treeDepth) (ds : DirSearch) :
    searchDirectory c n ds = searchLevels c (treeDepth - (n + 1) + 1) ds := by
  simp only [searchDirectory]; congr 1; omega

end SearchSyscall
