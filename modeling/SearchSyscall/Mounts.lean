import SearchSyscall.Syscall

/-!
# Mounts and the arguments of a native search

Where the filesystem of an opened directory has `f_op->search`, the walk hands the subtree over
with `mount_real_path = dentry_path(mnt->mnt_mountpoint)` and
`rel_path = ds->path + strlen(mount_real_path)` (lines 1325-1328), `ds->path` being the directory's
canonical path (`searchOpened_delegate`).  `Fs.mountPath` gives the first for each node; here it is
computed from a mount tree.

* `MountTable` lists the mount points, which are distinct; each mount shows its filesystem from
  that filesystem's root (no bind mount of a subdirectory).  `MountTable.holder loc` is the mount
  holding `loc`, `MountTable.parent m` the mount `m` is mounted on, and `MountTable.mountPath` what
  `dentry_path` gives for the mount point of the holder: its path inside the filesystem of the
  parent mount, which `dentry_path` walks up to that filesystem's root.
* `mountRelPath m loc` is the path of `loc` from the root of the mount `m`: a `/` before each name
  below the mount's root.
* For a mount mounted on the root mount, `mount_real_path` is the absolute path of the mount point
  and `rel_path` the path from the mount's root (`mountPath_of_parent_root`).  Below the root mount
  itself, `rel_path` is that path without its leading `/` (`mountPath_of_holder_root`).
* For a mount mounted on another mount, `mount_real_path` is the mount point's path inside that
  mount, and `rel_path` is the canonical path cut at its length (`search_nested_mount_args`).
-/

namespace SearchSyscall

/-- The mount tree: the mount points, as nodes, of the mounts other than the root mount, which is
mounted on `/`. -/
structure MountTable where
  points : List Loc
  deriving DecidableEq, Repr

/-- The longest of the nodes `ms` that is a prefix of `loc`, or the root `[]`. -/
def longestPrefix (ms : List Loc) (loc : Loc) : Loc :=
  ms.foldl (fun best m => if m <+: loc ∧ best.length < m.length then m else best) []

/-- `real_mount(filp->f_path.mnt)` for the node `loc`, named by its mount point: the mount whose
mount point is the longest prefix of `loc`. -/
def MountTable.holder (mt : MountTable) (loc : Loc) : Loc := longestPrefix mt.points loc

/-- `mnt->mnt_parent` of the mount at `m`: the mount holding `m` among the others; the root mount is
its own parent. -/
def MountTable.parent (mt : MountTable) (m : Loc) : Loc := longestPrefix (mt.points.filter (· ≠ m)) m

/-- `dentry_path(mnt->mnt_mountpoint)` for the mount holding `loc`: the path of its mount point from
the root of the filesystem of its parent mount; `/` for the root mount, whose mount point is its own
root. -/
def MountTable.mountPath (mt : MountTable) (loc : Loc) : List Char :=
  absPath ((mt.holder loc).drop (mt.parent (mt.holder loc)).length)

/-- The path of `loc` from the root of the mount at `m`: a `/` before each name below it, empty at
the mount's root. -/
def mountRelPath (m loc : Loc) : List Char := (loc.drop m.length).flatMap ('/' :: ·)

/-! ### The mount holding a node -/

theorem longestPrefix_isPrefix (loc : Loc) :
    ∀ (ms : List Loc) {best : Loc}, best <+: loc →
      ms.foldl (fun best m => if m <+: loc ∧ best.length < m.length then m else best) best <+: loc
  | [], _, h => h
  | m :: ms, best, h => by
    rw [List.foldl_cons]
    refine longestPrefix_isPrefix loc ms ?_
    split
    · next hm => exact hm.1
    · exact h

private theorem holder_isPrefix (mt : MountTable) (loc : Loc) : mt.holder loc <+: loc :=
  longestPrefix_isPrefix loc mt.points List.nil_prefix

/-! ### Canonical paths across a mount point -/

theorem absPath_of_ne_nil {loc : Loc} (h : loc ≠ []) : absPath loc = loc.flatMap ('/' :: ·) := by
  cases loc with
  | nil => exact absurd rfl h
  | cons n rest => rfl

/-- Below a mount point other than `/`, the canonical path is the mount point's followed by the
path from the mount's root. -/
private theorem absPath_eq_append_mountRelPath {m loc : Loc} (hm : m ≠ []) (h : m <+: loc) :
    absPath loc = absPath m ++ mountRelPath m loc := by
  obtain ⟨r, rfl⟩ := h
  rw [absPath_of_ne_nil hm, absPath_of_ne_nil (by simp [hm]), mountRelPath, List.drop_left,
    List.flatMap_append]

/-- For a mount mounted on the root mount, `mount_real_path` is the absolute path of the mount
point, and `rel_path`, cut from the canonical path, is the path from the mount's root. -/
private theorem mountPath_of_parent_root (mt : MountTable) (loc : Loc) (hm : mt.holder loc ≠ [])
    (hp : mt.parent (mt.holder loc) = []) :
    mt.mountPath loc = absPath (mt.holder loc) ∧
      (absPath loc).drop (mt.mountPath loc).length = mountRelPath (mt.holder loc) loc := by
  have hpath : mt.mountPath loc = absPath (mt.holder loc) := by
    rw [MountTable.mountPath, hp, List.length_nil, List.drop_zero]
  refine ⟨hpath, ?_⟩
  rw [hpath, absPath_eq_append_mountRelPath hm (holder_isPrefix mt loc), List.drop_left]

/-- Below the root mount, `mount_real_path` is `/`, and `rel_path` is the path from the root without
its leading `/`. -/
private theorem mountPath_of_holder_root (mt : MountTable) (loc : Loc) (h : mt.holder loc = []) :
    mt.mountPath loc = ['/'] ∧
      (absPath loc).drop (mt.mountPath loc).length = (mountRelPath [] loc).tail := by
  have hpath : mt.mountPath loc = ['/'] := by
    rw [MountTable.mountPath, h, List.drop_nil]
    rfl
  refine ⟨hpath, ?_⟩
  rw [hpath, mountRelPath, List.length_nil, List.drop_zero]
  by_cases hl : loc = []
  · subst hl
    rfl
  · rw [absPath_of_ne_nil hl, List.length_singleton, List.drop_one]

/-! ### Where the walk delegates -/

/-- Where the filesystem of the opened directory `loc` has `f_op->search`, the walk hands the
subtree over with the canonical path of `loc` in `ds->path`. -/
private theorem searchOpened_delegate (c : Search) (child : DirSearch → Int × DirSearch) (loc : Loc)
    {i : Inode} {hook : NativeSearch} (fp : Nat) (ds : DirSearch) (hh : i.search = some hook)
    (hc : abspath loc = .ok (absPath loc)) :
    ∃ ds', ds'.path = absPath loc ∧ searchOpened c child loc i fp ds = delegate c loc hook fp ds' := by
  simp only [searchOpened, hc, hh]
  exact ⟨_, by split <;> rfl, rfl⟩

/-! ### Nested mounts -/

/-- The mount `/mnt/x` and, on it, the mount `/mnt/x/y`. -/
def nestedMounts : MountTable := ⟨[[['m', 'n', 't'], ['x']], [['m', 'n', 't'], ['x'], ['y']]]⟩

/-- A native search that writes the arguments it is given, `rel_path`, `|`, `mount_real_path` and
`|`, and returns their length. -/
def echoHook : NativeSearch :=
  ⟨fun mrp rel _ _ _ => ([(0, rel ++ '|' :: mrp ++ ['|'])], (rel ++ '|' :: mrp ++ ['|']).length)⟩

/-- `/mnt/x/w` on the mount `/mnt/x` and `/mnt/x/y/z` on the mount `/mnt/x/y`, both filesystems
with `echoHook` as `f_op->search`. -/
def nestedMountFs : Fs where
  node
    | [] => some (dirNode [⟨['m', 'n', 't'], true⟩])
    | [['m', 'n', 't']] => some (dirNode [⟨['x'], true⟩])
    | [['m', 'n', 't'], ['x']] =>
      some { dirNode [⟨['w'], true⟩, ⟨['y'], true⟩] with search := some echoHook }
    | [['m', 'n', 't'], ['x'], ['w']] => some { dirNode [] with search := some echoHook }
    | [['m', 'n', 't'], ['x'], ['y']] => some { dirNode [⟨['z'], true⟩] with search := some echoHook }
    | [['m', 'n', 't'], ['x'], ['y'], ['z']] => some { dirNode [] with search := some echoHook }
    | _ => none
  cwd := []
  mountPath := nestedMounts.mountPath

def nestedMountEnv : Env := ⟨nestedMountFs, bufMem, true, true, true⟩

/-- Searching `/mnt/x/w`, on the mount `/mnt/x` mounted on the root mount, the filesystem is given
`rel_path = /w` and `mount_real_path = /mnt/x`.  Searching `/mnt/x/y/z`, on the mount `/mnt/x/y`
mounted on `/mnt/x`, it is given `mount_real_path = /y`, the mount point's path inside `/mnt/x`,
and `rel_path = nt/x/y/z`, the canonical path cut after two bytes, where the mount point is
`/mnt/x/y` and the path from the mount's root is `/z`. -/
theorem search_nested_mount_args :
    finalContents (search nestedMountEnv (some "/mnt/x/w".toList) (some "*".toList) 0 100).2 =
      "/w|/mnt/x".toList ∧
    finalContents (search nestedMountEnv (some "/mnt/x/y/z".toList) (some "*".toList) 0 100).2 =
      "nt/x/y/z|/y".toList ∧
    absPath (nestedMounts.holder [['m', 'n', 't'], ['x'], ['y'], ['z']]) = "/mnt/x/y".toList ∧
    mountRelPath (nestedMounts.holder [['m', 'n', 't'], ['x'], ['y'], ['z']])
      [['m', 'n', 't'], ['x'], ['y'], ['z']] = "/z".toList := by
  decide

end SearchSyscall
