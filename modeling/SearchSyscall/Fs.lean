import SearchSyscall.Result

/-!
# The file system the search runs on

The search reaches the file system only through a handful of calls: `filp_open` and `kern_path` on
a path string, `vfs_path_lookup` from an open directory, `d_absolute_path`, `vfs_readdir`,
`vfs_getattr`, and a filesystem's own `f_op->search`.  The model gives each of them its meaning over
one tree.

* A node is named by its `Loc`, the list of names from `/` down to it; `Fs.node` gives the `Inode`
  there, if any.  An inode records whether it is a directory, the error opening it would add to path
  resolution (no read permission), the error walking through it would give (no search permission),
  its native search hook, the results of the successive `vfs_readdir` calls on it, and its `kstat`.
* `Fs.lookup top start s` resolves the string `s` from `start` component by component, as the path
  walk does: repeated `/` are skipped, `.` stays, `..` goes up but not above `top`, and every step
  needs a searchable directory.
* `absPath loc` is the canonical path `d_absolute_path` writes: `/` for the root, `/a/b` below it.
-/

namespace SearchSyscall

/-- A node of the tree, named by the names from `/` down to it. -/
abbrev Loc := List (List Char)

/-- One entry `vfs_readdir` hands to the filldir callback: its name and whether its `d_type` is
`DT_DIR`. -/
structure Dirent where
  name : List Char
  isDir : Bool
  deriving DecidableEq, Repr

/-- A filesystem's `f_op->search(inode, mount_real_path, rel_path, pattern, flags, buf, len)`:
from the mount path, the relative path, the pattern, the flags and the remaining length, the bytes
it writes (at offsets from the output cursor it is given) and the count it returns. -/
structure NativeSearch where
  run : List Char → List Char → List Char → Nat → Nat → List (Int × List Char) × Int

/-- What the search can learn about one node. -/
structure Inode where
  isDir : Bool
  /-- The error `filp_open` on the resolved node fails with (no read permission), if any. -/
  openErr : Option Errno
  /-- The error a path walk through this directory fails with (no search permission), if any. -/
  searchErr : Option Errno
  search : Option NativeSearch
  /-- The results of the successive `vfs_readdir` calls; further calls list nothing. -/
  readdir : List (Except Errno (List Dirent))
  stat : Except Errno Kstat

/-- The tree, the current directory of the calling process, and for each node the path
`dentry_path(mnt->mnt_mountpoint)` of the mount point of the mount holding it. -/
structure Fs where
  node : Loc → Option Inode
  cwd : Loc
  mountPath : Loc → List Char

namespace Fs

variable (fs : Fs)

/-- One component of a path walk from the directory `cur`; `..` does not leave `top`. -/
def step (top cur : Loc) (comp : List Char) : Except Errno Loc :=
  match fs.node cur with
  | none => .error enoent
  | some i =>
    if !i.isDir then .error enotdir
    else match i.searchErr with
      | some e => .error e
      | none =>
        if comp = ['.'] then .ok cur
        else if comp = ['.', '.'] then .ok (if cur = top then cur else cur.dropLast)
        else match fs.node (cur ++ [comp]) with
          | none => .error enoent
          | some _ => .ok (cur ++ [comp])

/-- The walk over the components between the `/` of a path; empty components (repeated `/`) are
skipped. -/
def walk (top : Loc) : Loc → List (List Char) → Except Errno Loc
  | cur, [] => .ok cur
  | cur, [] :: rest => walk top cur rest
  | cur, comp :: rest =>
    match fs.step top cur comp with
    | .error e => .error e
    | .ok nxt => walk top nxt rest

/-- Whether the node at `loc` is a directory. -/
def isDirAt (loc : Loc) : Bool :=
  match fs.node loc with
  | some i => i.isDir
  | none => false

/-- Resolution of the string `s` from `start`: an empty string names nothing, and a trailing `/`
needs a directory. -/
def lookup (top start : Loc) (s : List Char) : Except Errno Loc :=
  if s = [] then .error enoent else
  match fs.walk top start (s.splitOn '/') with
  | .error e => .error e
  | .ok loc => if s.getLast? = some '/' ∧ !fs.isDirAt loc then .error enotdir else .ok loc

/-- `kern_path(s, LOOKUP_FOLLOW)`: absolute strings from `/`, others from the current directory. -/
def resolve (s : List Char) : Except Errno Loc :=
  fs.lookup [] (if s.head? = some '/' then [] else fs.cwd) s

/-- `filp_open(s, O_DIRECTORY|O_RDONLY|O_LARGEFILE, 0)`: the opened directory and its inode. -/
def filpOpen (s : List Char) : Except Errno (Loc × Inode) :=
  match fs.resolve s with
  | .error e => .error e
  | .ok loc =>
    match fs.node loc with
    | none => .error enoent
    | some i =>
      if !i.isDir then .error enotdir
      else match i.openErr with
        | some e => .error e
        | none => .ok (loc, i)

/-- What `filp_open` opens is the node it resolved. -/
theorem filpOpen_ok {s : List Char} {loc : Loc} {i : Inode} (h : fs.filpOpen s = .ok (loc, i)) :
    fs.resolve s = .ok loc ∧ fs.node loc = some i := by
  unfold filpOpen at h
  split at h
  · cases h
  · split at h
    · cases h
    · split at h
      · cases h
      · split at h
        · cases h
        · cases h; exact ⟨‹_›, ‹_›⟩

/-- What `filp_open` does with a path depends only on what the path resolves to. -/
theorem filpOpen_congr {s s' : List Char} (h : fs.resolve s = fs.resolve s') :
    fs.filpOpen s = fs.filpOpen s' := by
  unfold filpOpen; rw [h]

theorem filpOpen_node {s : List Char} {loc : Loc} {i : Inode} (h : fs.filpOpen s = .ok (loc, i)) :
    fs.node loc = some i :=
  (fs.filpOpen_ok h).2

/-- No node has a native search hook. -/
def NoHooks : Prop := ∀ loc i, fs.node loc = some i → i.search = none

/-- `vfs_getattr` on the node at `loc`. -/
def getattr (loc : Loc) : Except Errno Kstat :=
  match fs.node loc with
  | some i => i.stat
  | none => .error enoent

end Fs

/-- The canonical path of a node: `/` for the root, `/a/b` for `[a, b]`. -/
def absPath : Loc → List Char
  | [] => ['/']
  | loc => loc.flatMap ('/' :: ·)

/-- Below a node other than the root, a child's canonical path extends its parent's. -/
theorem absPath_append_single {loc : Loc} (h : loc ≠ []) (n : List Char) :
    absPath (loc ++ [n]) = absPath loc ++ '/' :: n := by
  cases loc with
  | nil => exact absurd rfl h
  | cons x xs => simp [absPath]

theorem absPath_ne_nil (loc : Loc) : absPath loc ≠ [] := by
  cases loc with
  | nil => simp [absPath]
  | cons x xs => simp [absPath]

/-- `abspath`: `d_absolute_path(&fp->f_path, path, PATH_MAX)`, which fails when the path and its NUL
do not fit in `PATH_MAX` bytes. -/
def abspath (loc : Loc) : Except Errno (List Char) :=
  if (absPath loc).length + 1 ≤ pathMax then .ok (absPath loc) else .error enametoolong

theorem eq_absPath_of_abspath {loc : Loc} {canon : List Char} (h : abspath loc = .ok canon) :
    canon = absPath loc := by
  unfold abspath at h
  split at h
  · cases h; rfl
  · cases h

/-! ### Lookups of plain names -/

/-- The searchable directories a lookup of the names `ns` from `cur` passes through, and the nodes
it finds. -/
def Fs.Chain (fs : Fs) : Loc → List (List Char) → Prop
  | _, [] => True
  | cur, n :: ns =>
    (∃ i, fs.node cur = some i ∧ i.isDir ∧ i.searchErr = none) ∧
      (∃ j, fs.node (cur ++ [n]) = some j) ∧ fs.Chain (cur ++ [n]) ns

theorem Fs.chain_append {fs : Fs} :
    ∀ (cur : Loc) (a b : List (List Char)), fs.Chain cur (a ++ b) ↔ fs.Chain cur a ∧ fs.Chain (cur ++ a) b
  | cur, [], b => by simp [Fs.Chain]
  | cur, n :: a, b => by
    show (_ ∧ _ ∧ fs.Chain (cur ++ [n]) (a ++ b)) ↔ (_ ∧ _ ∧ fs.Chain (cur ++ [n]) a) ∧ _
    rw [chain_append (cur ++ [n]) a b, List.append_assoc, List.singleton_append, and_assoc, and_assoc]

/-- A chain of names starts at a searchable directory. -/
theorem Fs.Chain.start {fs : Fs} {cur : Loc} {ns : List (List Char)} (h : fs.Chain cur ns)
    (hns : ns ≠ []) : ∃ i, fs.node cur = some i ∧ i.isDir ∧ i.searchErr = none := by
  obtain ⟨n, ns, rfl⟩ := List.exists_cons_of_ne_nil hns
  exact h.1

/-- A name other than `.` and `..` is found below a searchable directory. -/
private theorem Fs.step_ok {fs : Fs} {top cur nxt : Loc} {n : List Char} (h1 : n ≠ ['.'])
    (h2 : n ≠ ['.', '.']) (h : fs.step top cur n = .ok nxt) :
    nxt = cur ++ [n] ∧ (∃ i, fs.node cur = some i ∧ i.isDir ∧ i.searchErr = none) ∧
      ∃ j, fs.node (cur ++ [n]) = some j := by
  unfold Fs.step at h
  split at h
  · cases h
  rename_i i hi
  split at h
  · cases h
  rename_i hdir
  split at h
  · cases h
  rename_i hse
  split at h
  · cases h
  rename_i j hj
  cases h
  exact ⟨rfl, ⟨i, hi, by simpa using hdir, hse⟩, j, hj⟩

/-- The lookup of the names of a chain finds its last node. -/
theorem Fs.walk_of_chain {fs : Fs} {top : Loc} :
    ∀ (ns : List (List Char)) (cur : Loc), (∀ n ∈ ns, n ≠ [] ∧ n ≠ ['.'] ∧ n ≠ ['.', '.']) →
      fs.Chain cur ns → fs.walk top cur ns = .ok (cur ++ ns)
  | [], cur, _, _ => by simp [Fs.walk]
  | n :: ns, cur, hns, ⟨⟨i, hi, hdir, hse⟩, ⟨j, hj⟩, hch⟩ => by
    obtain ⟨hne, h1, h2⟩ := hns n (.head _)
    have hstep : fs.step top cur n = .ok (cur ++ [n]) := by
      simp only [Fs.step, hi, hdir, hse, h1, h2, hj, Bool.not_true, Bool.false_eq_true, if_false]
    obtain ⟨d, n', rfl⟩ := List.exists_cons_of_ne_nil hne
    rw [Fs.walk.eq_3 _ _ _ _ _ (List.cons_ne_nil d n'), hstep]
    dsimp only
    rw [walk_of_chain ns _ (fun m hm => hns m (.tail _ hm)) hch, List.append_assoc,
      List.singleton_append]

theorem Fs.walk_names {fs : Fs} {top : Loc} :
    ∀ (ns : List (List Char)) (cur l : Loc), (∀ n ∈ ns, n ≠ [] ∧ n ≠ ['.'] ∧ n ≠ ['.', '.']) →
      fs.walk top cur ns = .ok l → l = cur ++ ns ∧ fs.Chain cur ns
  | [], cur, l, _, h => by cases h; exact ⟨by simp, trivial⟩
  | n :: ns, cur, l, hns, h => by
    obtain ⟨hne, h1, h2⟩ := hns n (.head _)
    obtain ⟨d, n', rfl⟩ := List.exists_cons_of_ne_nil hne
    unfold Fs.walk at h
    split at h
    · cases h
    rename_i nxt hstep
    obtain ⟨rfl, hdir, hj⟩ := Fs.step_ok h1 h2 hstep
    obtain ⟨rfl, hch⟩ := walk_names ns _ l (fun m hm => hns m (.tail _ hm)) h
    exact ⟨by simp, hdir, hj, hch⟩

/-- The names `n`, `ns` joined by `/` split back at `/`. -/
theorem splitOn_slashJoin : ∀ (n : List Char) (ns : List (List Char)), '/' ∉ n →
    (∀ m ∈ ns, '/' ∉ m) → (n ++ ns.flatMap ('/' :: ·)).splitOn '/' = n :: ns
  | n, [], hn, _ => by
    simpa using List.splitOnP_eq_single _ _ fun c hc h => hn (by simpa using (beq_iff_eq.mp h) ▸ hc)
  | n, m :: ms, hn, hms => by
    rw [List.flatMap_cons, List.cons_append]
    show List.splitOnP (· == '/') (n ++ '/' :: (m ++ ms.flatMap ('/' :: ·))) = n :: m :: ms
    rw [List.splitOnP_first _ _ (fun c hc h => hn (by simpa using (beq_iff_eq.mp h) ▸ hc)) '/'
      (by simp)]
    exact congrArg (n :: ·) (splitOn_slashJoin m ms (hms m (.head _)) fun k hk => hms k (.tail _ hk))

/-- A path and what follows its `/` split apart there. -/
theorem splitOn_append_slash : ∀ (xs zs : List Char),
    (xs ++ '/' :: zs).splitOn '/' = xs.splitOn '/' ++ zs.splitOn '/'
  | [], zs => by simp [List.splitOn, List.splitOnP_cons]
  | x :: xs, zs => by
    show List.splitOnP (· == '/') (x :: (xs ++ '/' :: zs)) =
      List.splitOnP (· == '/') (x :: xs) ++ List.splitOnP (· == '/') zs
    have ih : List.splitOnP (· == '/') (xs ++ '/' :: zs) =
        List.splitOnP (· == '/') xs ++ List.splitOnP (· == '/') zs := splitOn_append_slash xs zs
    rw [List.splitOnP_cons, List.splitOnP_cons, ih]
    split
    · rfl
    · obtain ⟨a, l, e⟩ := List.exists_cons_of_ne_nil (List.splitOnP_ne_nil (· == '/') xs)
      rw [e]
      rfl

/-- A name a path walk takes as one step down: not empty, not `.` or `..`, and without `/`. -/
def PlainName (n : List Char) : Prop := n ≠ [] ∧ n ≠ ['.'] ∧ n ≠ ['.', '.'] ∧ '/' ∉ n

/-- A node named by plain names from `/`. -/
def PlainLoc (loc : Loc) : Prop := ∀ n ∈ loc, PlainName n

/-- A plain name is one the path walk steps into. -/
theorem PlainName.walks {n : List Char} (h : PlainName n) : n ≠ [] ∧ n ≠ ['.'] ∧ n ≠ ['.', '.'] :=
  ⟨h.1, h.2.1, h.2.2.1⟩

/-- No component of a path split at `/` holds a `/`. -/
private theorem not_mem_of_mem_splitOn : ∀ (s : List Char) {comp : List Char},
    comp ∈ s.splitOn '/' → '/' ∉ comp
  | [], _, h => by simp_all
  | x :: s, comp, h => by
    rw [List.splitOn, List.splitOnP_cons] at h
    split at h
    · rcases List.mem_cons.mp h with rfl | h
      · exact List.not_mem_nil _
      · exact not_mem_of_mem_splitOn s h
    · rename_i hx
      obtain ⟨hd, tl, e⟩ := List.exists_cons_of_ne_nil (List.splitOnP_ne_nil (· == '/') s)
      have ih : ∀ c ∈ hd :: tl, '/' ∉ c := fun c hc => not_mem_of_mem_splitOn s (by
        show c ∈ List.splitOnP (· == '/') s
        rw [e]
        exact hc)
      rw [e, List.modifyHead_cons] at h
      rcases List.mem_cons.mp h with rfl | h
      · rintro (_ | ⟨_, hm⟩)
        · exact hx rfl
        · exact ih _ (.head _) hm
      · exact ih _ (.tail _ h)

/-- A step of a path walk from a node named by plain names, by a component without `/`, reaches
one. -/
private theorem Fs.step_plain {fs : Fs} {top cur nxt : Loc} {comp : List Char} (hcur : PlainLoc cur)
    (hc : comp ≠ []) (hs : '/' ∉ comp) (h : fs.step top cur comp = .ok nxt) : PlainLoc nxt := by
  unfold Fs.step at h
  split at h
  · cases h
  split at h
  · cases h
  split at h
  · cases h
  split at h
  · cases h
    exact hcur
  rename_i h1
  split at h
  · cases h
    split
    · exact hcur
    · exact fun n hn => hcur n ((List.dropLast_subset _) hn)
  rename_i h2
  split at h
  · cases h
  cases h
  intro n hn
  rcases List.mem_append.mp hn with hn | hn
  · exact hcur n hn
  · obtain rfl := List.mem_singleton.mp hn
    exact ⟨hc, h1, h2, hs⟩

theorem Fs.walk_plain {fs : Fs} {top : Loc} :
    ∀ (comps : List (List Char)) (cur l : Loc), PlainLoc cur → (∀ comp ∈ comps, '/' ∉ comp) →
      fs.walk top cur comps = .ok l → PlainLoc l
  | [], _, _, hcur, _, h => by cases h; exact hcur
  | [] :: rest, cur, l, hcur, hs, h => walk_plain rest cur l hcur (fun c hc => hs c (.tail _ hc)) h
  | (x :: comp) :: rest, cur, l, hcur, hs, h => by
    unfold Fs.walk at h
    split at h
    · cases h
    exact walk_plain rest _ l (Fs.step_plain hcur (List.cons_ne_nil _ _) (hs _ (.head _)) ‹_›)
      (fun c hc => hs c (.tail _ hc)) h

/-- From a current directory named by plain names, path resolution reaches only nodes named by
plain names. -/
theorem Fs.resolve_plain {fs : Fs} (hcwd : PlainLoc fs.cwd) {s : List Char} {l : Loc}
    (h : fs.resolve s = .ok l) : PlainLoc l := by
  unfold Fs.resolve Fs.lookup at h
  split at h
  · cases h
  split at h
  · cases h
  rename_i loc hw
  have hstart : PlainLoc (if s.head? = some '/' then [] else fs.cwd) := by
    split
    · exact fun _ h => absurd h (List.not_mem_nil _)
    · exact hcwd
  have hl : l = loc := by
    split at h <;> cases h
    rfl
  exact hl ▸ Fs.walk_plain _ _ _ hstart (fun _ => not_mem_of_mem_splitOn s) hw

/-- A trailing empty component changes nothing. -/
theorem Fs.walk_append_nil {fs : Fs} {top : Loc} :
    ∀ (comps : List (List Char)) (cur : Loc), fs.walk top cur (comps ++ [[]]) = fs.walk top cur comps
  | [], _ => rfl
  | [] :: rest, cur => walk_append_nil rest cur
  | (x :: comp) :: rest, cur => by
    rw [List.cons_append, Fs.walk.eq_3 _ _ _ _ _ (List.cons_ne_nil x comp),
      Fs.walk.eq_3 _ _ _ _ _ (List.cons_ne_nil x comp)]
    split
    · rfl
    · exact walk_append_nil rest _

private theorem Fs.resolve_slash_slash (fs : Fs) (n : List Char) :
    fs.resolve ('/' :: '/' :: n) = fs.resolve ('/' :: n) := by
  have hsplit : ('/' :: '/' :: n).splitOn '/' = [] :: ('/' :: n).splitOn '/' := by
    simp [List.splitOn, List.splitOnP_cons]
  simp only [Fs.resolve, Fs.lookup, List.head?_cons, if_true, List.cons_ne_nil, if_false,
    List.getLast?_cons_cons, hsplit, Fs.walk]

/-- The path `D/n` built for the entry `n` of the directory `loc` resolves as the canonical path of
`loc ++ [n]`, also below `/`, where it is `//n`. -/
theorem Fs.resolve_entry_eq (fs : Fs) (loc : Loc) (n : List Char) :
    fs.resolve (absPath loc ++ '/' :: n) = fs.resolve (absPath (loc ++ [n])) := by
  cases loc with
  | nil => simp only [absPath, List.nil_append, List.singleton_append, List.flatMap_cons,
      List.flatMap_nil, List.append_nil, Fs.resolve_slash_slash]
  | cons x xs => rw [absPath_append_single (List.cons_ne_nil x xs)]

/-- The canonical path of a node named by plain names other than `/` resolves to it through
searchable directories. -/
theorem Fs.resolve_absPath {fs : Fs} {l : Loc} (hl : PlainLoc l) (hne : l ≠ []) {l' : Loc}
    (h : fs.resolve (absPath l) = .ok l') : l' = l ∧ fs.Chain [] l := by
  obtain ⟨m, ms, rfl⟩ := List.exists_cons_of_ne_nil hne
  have hsplit : (absPath (m :: ms)).splitOn '/' = [] :: m :: ms :=
    splitOn_slashJoin [] (m :: ms) (List.not_mem_nil _) fun k hk => (hl k hk).2.2.2
  rw [Fs.resolve, if_pos (show (absPath (m :: ms)).head? = some '/' from rfl), Fs.lookup,
    if_neg (absPath_ne_nil _), hsplit, Fs.walk.eq_2] at h
  split at h
  · cases h
  rename_i l'' hw
  obtain rfl : l' = l'' := by
    split at h <;> cases h
    rfl
  simpa using Fs.walk_names (m :: ms) [] l' (fun k hk => (hl k hk).walks) hw

/-- The path built for an entry `n` other than `.` and `..`, without `/`, of a directory named by
plain names resolves to the entry, or to the directory itself when `n` is empty. -/
theorem Fs.resolve_entry {fs : Fs} {loc : Loc} (hloc : PlainLoc loc) {n : List Char} (hn : '/' ∉ n)
    (h1 : n ≠ ['.']) (h2 : n ≠ ['.', '.']) {l : Loc}
    (h : fs.resolve (absPath loc ++ '/' :: n) = .ok l) : l = loc ∨ l = loc ++ [n] := by
  obtain ⟨m, ms, e⟩ := List.exists_cons_of_ne_nil
    (List.append_ne_nil_of_right_ne_nil loc (List.cons_ne_nil n []))
  have habs : absPath (loc ++ [n]) = [] ++ (loc ++ [n]).flatMap ('/' :: ·) := by
    rw [e]
    rfl
  have hhead : (absPath (loc ++ [n])).head? = some '/' := by
    rw [habs, e]
    rfl
  have hsplit : (absPath (loc ++ [n])).splitOn '/' = [] :: (loc ++ [n]) := by
    rw [habs]
    refine splitOn_slashJoin [] _ (List.not_mem_nil _) fun k hk => ?_
    rcases List.mem_append.mp hk with hk | hk
    · exact (hloc k hk).2.2.2
    · exact List.mem_singleton.mp hk ▸ hn
  rw [fs.resolve_entry_eq] at h
  simp only [Fs.resolve, Fs.lookup, hhead, if_true, if_neg (absPath_ne_nil _), hsplit,
    Fs.walk] at h
  split at h
  · cases h
  rename_i l' hw
  obtain rfl : l = l' := by
    split at h <;> cases h
    rfl
  have hnames : ∀ k ∈ loc, k ≠ [] ∧ k ≠ ['.'] ∧ k ≠ ['.', '.'] :=
    fun k hk => (hloc k hk).walks
  by_cases hn0 : n = []
  · subst hn0
    rw [Fs.walk_append_nil] at hw
    exact .inl (by simpa using (Fs.walk_names loc [] l hnames hw).1)
  · have hall : ∀ k ∈ loc ++ [n], k ≠ [] ∧ k ≠ ['.'] ∧ k ≠ ['.', '.'] := fun k hk => by
      rcases List.mem_append.mp hk with hk | hk
      · exact hnames k hk
      · exact List.mem_singleton.mp hk ▸ ⟨hn0, h1, h2⟩
    exact .inr (by simpa using (Fs.walk_names (loc ++ [n]) [] l hall hw).1)

/-- A lookup of the plain names `n`, `ns` joined by `/` finds the node they lead to, through
searchable directories. -/
theorem Fs.lookup_names {fs : Fs} {top cur : Loc} {n : List Char} {ns : List (List Char)}
    (hns : ∀ m ∈ n :: ns, PlainName m) {t : Loc}
    (h : fs.lookup top cur (n ++ ns.flatMap ('/' :: ·)) = .ok t) :
    t = cur ++ n :: ns ∧ fs.Chain cur (n :: ns) := by
  rw [Fs.lookup, if_neg (List.append_ne_nil_of_left_ne_nil (hns n (.head _)).1 _),
    splitOn_slashJoin n ns (hns n (.head _)).2.2.2 fun m hm => (hns m (.tail _ hm)).2.2.2] at h
  split at h
  · cases h
  rename_i l hw
  obtain rfl : t = l := by
    split at h <;> cases h
    rfl
  exact Fs.walk_names (n :: ns) cur t (fun m hm => (hns m hm).walks) hw

/-- ... and it finds that node whenever they lead to one: the last name is not empty, so the path
does not end in `/`. -/
theorem Fs.lookup_of_chain {fs : Fs} {top cur : Loc} {n : List Char} {ns : List (List Char)}
    (hns : ∀ m ∈ n :: ns, PlainName m) (h : fs.Chain cur (n :: ns)) :
    fs.lookup top cur (n ++ ns.flatMap ('/' :: ·)) = .ok (cur ++ n :: ns) := by
  have hsplit := splitOn_slashJoin n ns (hns n (.head _)).2.2.2 fun m hm => (hns m (.tail _ hm)).2.2.2
  have hlast : (n ++ ns.flatMap ('/' :: ·)).getLast? ≠ some '/' := fun hl => by
    obtain ⟨ys, e⟩ := List.getLast?_eq_some_iff.mp hl
    rw [e, splitOn_append_slash] at hsplit
    exact (hns [] (hsplit ▸ List.mem_append_right _ (List.mem_singleton_self _))).1 rfl
  rw [Fs.lookup, if_neg (List.append_ne_nil_of_left_ne_nil (hns n (.head _)).1 _), hsplit,
    Fs.walk_of_chain _ _ (fun m hm => (hns m hm).walks) h]
  exact if_neg fun hc => hlast hc.1

end SearchSyscall
