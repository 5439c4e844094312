import SearchSyscall.PathWalk
import SearchSyscall.Shortcut

/-!
# Directories that cannot be opened

Where `filp_open` fails with `ENOENT`, `EPERM`, `EACCES` or `ENODEV`, `search_directory` sets
`ds->status` to the error and returns `0` (lines 1305-1310).  This module compares a search on a
tree where some directories cannot be opened with the same search on the tree where those
directories are empty.

* `Fs.failing fs fails` and `Fs.emptied fs fails` are the two trees.  Path resolution, lookup and
  `vfs_getattr` do not tell them apart (`Fs.resolve_mapInodes`), so every step of the walk but
  opening a directory is the same on both (`Fs.filpOpen_failing`).
* `DirSearch.erase` forgets what no step reads: the numbering of resources, the events and the
  longest path.  States with the same erasure (`Twin`) go on alike through each step
  (`copySearchResult_twin`, `matchedEntry_twin`, `delegate_twin`).
* `searchLevels_twin`: a level below the root run on the two trees from twin states returns the
  same value and the same output fields, and, when the walk goes on, the same `ds->base`; the
  skipped directory keeps the path it was given and the emptied one takes its canonical path,
  both of which the cut after the entry brings back to the parent's, on a tree whose directories
  list no name holding `/` (`Fs.PlainNames.entry_below`).  The status the skip leaves is
  overwritten by the caller (line 1391).
* At the root the skip leaves the path and `ds->base` where the emptied root would set them, and
  the roots loop sets both again for the next root (`walkRoots_twin`).
* `search_skip_eq_empty`: the two searches return the same value and leave the same output, as
  long as the canonical path of each emptied directory fits in `PATH_MAX`.  An emptied directory
  whose canonical path does not fit fails `abspath` with `ENAMETOOLONG`, which the skipped one
  never reaches.  Below the root the path handed to `filp_open` is as long as the canonical path
  of the directory it names; `Fs.filpOpen` does not check that length, which the kernel's
  `filp_open` refuses at `PATH_MAX` on both trees alike.  A root's string can be much shorter than
  its canonical path: the root `.` in a current directory `PATH_MAX` bytes deep
  (`search_skip_empty_long_path`).
-/

namespace SearchSyscall

open SearchMatched

/-! ### The two trees -/

/-- The tree `fs` with the inode of each node changed by `g`. -/
def Fs.mapInodes (fs : Fs) (g : Loc → Inode → Inode) : Fs :=
  { fs with node := fun loc => (fs.node loc).map (g loc) }

/-- The tree `fs` where `filp_open` fails with `e` on each directory `d` with `fails d = some e`. -/
def Fs.failing (fs : Fs) (fails : Loc → Option Errno) : Fs :=
  fs.mapInodes fun loc i =>
    match fails loc with
    | some e => { i with openErr := some e }
    | none => i

/-- The tree `fs` where each of those directories opens and is empty: it lists nothing and has no
`f_op->search`. -/
def Fs.emptied (fs : Fs) (fails : Loc → Option Errno) : Fs :=
  fs.mapInodes fun loc i =>
    match fails loc with
    | some _ => { i with openErr := none, search := none, readdir := [] }
    | none => i

/-- `g` changes neither whether a node is a directory, nor whether a walk may pass it, nor what
`vfs_getattr` gives. -/
def KeepsShape (g : Loc → Inode → Inode) : Prop :=
  ∀ loc i, (g loc i).isDir = i.isDir ∧ (g loc i).searchErr = i.searchErr ∧ (g loc i).stat = i.stat

theorem failing_keepsShape (fails : Loc → Option Errno) :
    KeepsShape fun loc i => match fails loc with
      | some e => { i with openErr := some e }
      | none => i := fun _ _ => by
  dsimp only
  split <;> exact ⟨rfl, rfl, rfl⟩

theorem emptied_keepsShape (fails : Loc → Option Errno) :
    KeepsShape fun loc i => match fails loc with
      | some _ => { i with openErr := none, search := none, readdir := [] }
      | none => i := fun _ _ => by
  dsimp only
  split <;> exact ⟨rfl, rfl, rfl⟩

section Shape

variable (fs : Fs) {g : Loc → Inode → Inode} (hg : KeepsShape g)
include hg

private theorem Fs.step_mapInodes (top cur : Loc) (comp : List Char) :
    (fs.mapInodes g).step top cur comp = fs.step top cur comp := by
  simp only [Fs.step, Fs.mapInodes]
  cases fs.node cur with
  | none => rfl
  | some i =>
    simp only [Option.map_some', (hg cur i).1, (hg cur i).2.1]
    cases fs.node (cur ++ [comp]) <;> rfl

private theorem Fs.walk_mapInodes (top cur : Loc) (comps : List (List Char)) :
    (fs.mapInodes g).walk top cur comps = fs.walk top cur comps := by
  induction comps generalizing cur with
  | nil => rfl
  | cons comp rest ih =>
    cases comp with
    | nil => simp only [Fs.walk, ih]
    | cons x xs =>
      simp only [Fs.walk, Fs.step_mapInodes fs hg]
      split <;> simp only [ih]

theorem Fs.lookup_mapInodes (top start : Loc) (s : List Char) :
    (fs.mapInodes g).lookup top start s = fs.lookup top start s := by
  have hdir : ∀ loc, (fs.mapInodes g).isDirAt loc = fs.isDirAt loc := fun loc => by
    simp only [Fs.isDirAt, Fs.mapInodes]
    cases fs.node loc <;> simp only [Option.map_some', Option.map_none', (hg _ _).1]
  simp only [Fs.lookup, Fs.walk_mapInodes fs hg, hdir]

theorem Fs.resolve_mapInodes (s : List Char) : (fs.mapInodes g).resolve s = fs.resolve s :=
  fs.lookup_mapInodes hg _ _ s

theorem Fs.getattr_mapInodes (loc : Loc) : (fs.mapInodes g).getattr loc = fs.getattr loc := by
  simp only [Fs.getattr, Fs.mapInodes]
  cases fs.node loc <;> simp only [Option.map_some', Option.map_none', (hg _ _).2.2]

/-- A matched entry is looked up and stat'ed alike on both trees. -/
private theorem matchedEntry_mapInodes (c : Search) (hc : c.fs = fs) :
    matchedEntry { c with fs := fs.mapInodes g } = matchedEntry c := by
  subst hc
  funext loc e ds
  simp only [matchedEntry, statRef, statTarget, Fs.lookup_mapInodes _ hg, Fs.getattr_mapInodes _ hg]

end Shape

/-- Opening a path on the two trees gives the same outcome, but at a directory `d` with
`fails d = some e`, which fails with `e` on the first tree and opens empty on the second. -/
theorem Fs.filpOpen_failing (fs : Fs) (fails : Loc → Option Errno) (s : List Char) :
    (fs.failing fails).filpOpen s = (fs.emptied fails).filpOpen s ∨
    ∃ (loc : Loc) (i : Inode) (e : Errno), fails loc = some e ∧
      (fs.failing fails).filpOpen s = .error e ∧
      (fs.emptied fails).filpOpen s =
        .ok (loc, { i with openErr := none, search := none, readdir := [] }) := by
  unfold Fs.filpOpen
  rw [Fs.failing, Fs.resolve_mapInodes fs (failing_keepsShape fails), Fs.emptied,
    Fs.resolve_mapInodes fs (emptied_keepsShape fails)]
  cases fs.resolve s with
  | error e => exact .inl rfl
  | ok loc =>
    simp only [Fs.mapInodes]
    cases fs.node loc with
    | none => exact .inl rfl
    | some i =>
      cases hf : fails loc with
      | none => exact .inl (by simp only [Option.map_some', hf])
      | some e =>
        by_cases hd : i.isDir
        · exact .inr ⟨loc, i, e, hf, by simp [hd, hf], by simp [hd, hf]⟩
        · exact .inl (by simp [hd, hf])

/-! ### What no step reads -/

/-- The state without the numbering of resources, the events, and the longest path the buffer has
held: no step of the walk reads them. -/
def DirSearch.erase (ds : DirSearch) : DirSearch :=
  { ds with events := [], fresh := 0, longest := 0 }

/-- States alike in all a step of the walk reads. -/
def Twin (ds₁ ds₂ : DirSearch) : Prop := ds₁.erase = ds₂.erase

namespace Twin

variable {ds₁ ds₂ : DirSearch}

theorem ledger (h : Twin ds₁ ds₂) : ds₁.ledger = ds₂.ledger := congrArg (·.ledger) h

theorem path (h : Twin ds₁ ds₂) : ds₁.path = ds₂.path := congrArg (·.path) h

theorem base (h : Twin ds₁ ds₂) : ds₁.base = ds₂.base := congrArg (·.base) h

theorem status (h : Twin ds₁ ds₂) : ds₁.status = ds₂.status := congrArg (·.status) h

/-- States with the same output fields, path, `ds->base` and status are twins. -/
theorem of_fields (hl : ds₁.ledger = ds₂.ledger) (hp : ds₁.path = ds₂.path)
    (hb : ds₁.base = ds₂.base) (hs : ds₁.status = ds₂.status) : Twin ds₁ ds₂ := by
  cases ds₁; cases ds₂
  obtain ⟨rfl, rfl, rfl, rfl, rfl, rfl, rfl⟩ := Ledger.mk.inj hl
  cases hp; cases hb; cases hs
  rfl

/-- A change of state that reads no erased field keeps states twins. -/
theorem map (f : DirSearch → DirSearch) (hf : ∀ ds, (f ds).erase = (f ds.erase).erase)
    (h : Twin ds₁ ds₂) : Twin (f ds₁) (f ds₂) :=
  calc (f ds₁).erase = (f ds₁.erase).erase := hf ds₁
    _ = (f ds₂.erase).erase := by rw [show ds₁.erase = ds₂.erase from h]
    _ = (f ds₂).erase := (hf ds₂).symm

theorem setStatus (h : Twin ds₁ ds₂) (s : Int) : Twin { ds₁ with status := s } { ds₂ with status := s } :=
  h.map (fun d => { d with status := s }) (fun _ => rfl)

end Twin

theorem copySearchResult_erase (flags : Nat) (path : List Char) (st : Kstat) (ds : DirSearch) :
    copySearchResult flags path st ds.erase =
      ((copySearchResult flags path st ds).1, (copySearchResult flags path st ds).2.erase) := by
  unfold copySearchResult DirSearch.userWrite
  dsimp only [DirSearch.erase]
  split_ifs <;> rfl

/-- `DirSearch.erase` on both ways out of a step. -/
def DirSearch.eraseOut : Except DirSearch DirSearch → Except DirSearch DirSearch
  | .ok ds => .ok ds.erase
  | .error ds => .error ds.erase

private theorem foldl_userWrite_ghost (ws : List (Int × List Char)) (ds : DirSearch) (ev : List Event)
    (f lg : Nat) :
    ws.foldl (fun ds w => (ds.userWrite (ds.next + w.1) w.2).2)
        { ds with events := ev, fresh := f, longest := lg } =
      { ws.foldl (fun ds w => (ds.userWrite (ds.next + w.1) w.2).2) ds with
          events := ev, fresh := f, longest := lg } := by
  induction ws generalizing ds with
  | nil => rfl
  | cons w ws ih => exact ih (ds.userWrite (ds.next + w.1) w.2).2

/-- A native search reads no erased field, and the number of the directory's file is only
released. -/
theorem delegate_erase (c : Search) (loc : Loc) (hook : NativeSearch) (fp fp' : Nat)
    (ds : DirSearch) :
    (delegate c loc hook fp ds.erase).1 = (delegate c loc hook fp' ds).1 ∧
      (delegate c loc hook fp ds.erase).2.erase = (delegate c loc hook fp' ds).2.erase := by
  unfold delegate closeDir DirSearch.newId DirSearch.acquire DirSearch.release
  dsimp only [DirSearch.erase]
  simp only [foldl_userWrite_ghost]
  split_ifs <;> exact ⟨rfl, rfl⟩

/-- `copy_search_result` reads no erased field. -/
theorem copySearchResult_twin (flags : Nat) (path : List Char) (st : Kstat) {ds₁ ds₂ : DirSearch}
    (h : Twin ds₁ ds₂) :
    (copySearchResult flags path st ds₁).1 = (copySearchResult flags path st ds₂).1 ∧
      Twin (copySearchResult flags path st ds₁).2 (copySearchResult flags path st ds₂).2 :=
  Prod.mk.inj ((copySearchResult_erase flags path st ds₁).symm.trans
    ((congrArg (copySearchResult flags path st) h).trans (copySearchResult_erase flags path st ds₂)))

/-- A matched entry reads no erased field: the reference to the target is numbered from
`ds->fresh`, and only recorded. -/
theorem matchedEntry_twin (c : Search) (loc : Loc) (e : Dirent) {ds₁ ds₂ : DirSearch}
    (h : Twin ds₁ ds₂) :
    DirSearch.eraseOut (matchedEntry c loc e ds₁) = DirSearch.eraseOut (matchedEntry c loc e ds₂) := by
  unfold matchedEntry
  cases c.fs.lookup loc loc e.name with
  | error err => exact congrArg Except.error (h.setStatus err.neg)
  | ok target =>
    have hst : (statRef c target ds₁).1 = (statRef c target ds₂).1 ∧
        (statRef c target ds₁).2.1 = (statRef c target ds₂).2.1 ∧
        Twin (statRef c target ds₁).2.2 (statRef c target ds₂).2.2 := ⟨rfl, rfl, h⟩
    dsimp only
    generalize statRef c target ds₁ = o₁ at hst ⊢
    generalize statRef c target ds₂ = o₂ at hst ⊢
    obtain ⟨st, s, d₁⟩ := o₁
    obtain ⟨_, _, d₂⟩ := o₂
    obtain ⟨rfl, rfl, hd⟩ := hst
    dsimp only at hd ⊢
    rw [show (if hasFlag c.flags searchIncluderoot then d₂.path else e.name) =
      (if hasFlag c.flags searchIncluderoot then d₁.path else e.name) by rw [hd.path]]
    have hc := copySearchResult_twin c.flags
      (if hasFlag c.flags searchIncluderoot then d₁.path else e.name) st (hd.setStatus s)
    generalize copySearchResult c.flags (if hasFlag c.flags searchIncluderoot then d₁.path else e.name) st
      { d₁ with status := s } = o₁ at hc ⊢
    generalize copySearchResult c.flags (if hasFlag c.flags searchIncluderoot then d₁.path else e.name) st
      { d₂ with status := s } = o₂ at hc ⊢
    obtain ⟨r, e₁⟩ := o₁
    obtain ⟨_, e₂⟩ := o₂
    obtain ⟨rfl, he⟩ := hc
    have hrep := Twin.map
      (fun d => { d with status := r, results := d.results + 1, hits := d.hits ++ [loc ++ [e.name]] })
      (fun _ => rfl) he
    dsimp only
    split_ifs
    · exact congrArg Except.error (hd.setStatus s)
    · exact congrArg Except.error (he.setStatus r)
    · exact congrArg Except.error hrep
    · exact congrArg Except.ok hrep

theorem delegate_twin (c : Search) (loc : Loc) (hook : NativeSearch) (fp₁ fp₂ : Nat)
    {ds₁ ds₂ : DirSearch} (h : Twin ds₁ ds₂) :
    (delegate c loc hook fp₁ ds₁).1 = (delegate c loc hook fp₂ ds₂).1 ∧
      Twin (delegate c loc hook fp₁ ds₁).2 (delegate c loc hook fp₂ ds₂).2 := by
  obtain ⟨h1, h2⟩ := delegate_erase c loc hook fp₁ fp₁ ds₁
  obtain ⟨h3, h4⟩ := delegate_erase c loc hook fp₁ fp₂ ds₂
  rw [show ds₁.erase = ds₂.erase from h] at h1 h2
  exact ⟨h1.symm.trans h3, h2.symm.trans h4⟩

/-- A matched entry keeps the path and `ds->base`. -/
private theorem matchedEntry_keeps (c : Search) (loc : Loc) (e : Dirent) (ds : DirSearch) :
    (stateOf (matchedEntry c loc e ds)).path = ds.path ∧
      (stateOf (matchedEntry c loc e ds)).base = ds.base := by
  rcases matchedEntry_cases c loc e ds with
    ⟨ds', he, -, hp, hb, -⟩ | ⟨ds', st, -, -, -, hp, hb, -, he⟩
  · rw [he]
    exact ⟨hp, hb⟩
  · rw [he]
    split <;> exact ⟨hp, hb⟩

/-- A native search keeps the path and `ds->base`. -/
private theorem delegate_keeps (c : Search) (loc : Loc) (hook : NativeSearch) (fp : Nat) (ds : DirSearch) :
    (delegate c loc hook fp ds).2.path = ds.path ∧ (delegate c loc hook fp ds).2.base = ds.base := by
  have hf : ∀ (ws : List (Int × List Char)) (d : DirSearch),
      (ws.foldl (fun ds w => (ds.userWrite (ds.next + w.1) w.2).2) d).path = d.path ∧
        (ws.foldl (fun ds w => (ds.userWrite (ds.next + w.1) w.2).2) d).base = d.base := by
    intro ws
    induction ws with
    | nil => exact fun _ => ⟨rfl, rfl⟩
    | cons w ws ih => exact fun d => ih _
  unfold delegate closeDir
  dsimp only
  split_ifs <;> exact hf _ _

/-! ### The walk on either tree -/

/-- The search `c` on the tree where the directories of `fails` cannot be opened. -/
def Search.failing (c : Search) (fails : Loc → Option Errno) : Search :=
  { c with fs := c.fs.failing fails }

/-- The search `c` on the tree where those directories are empty. -/
def Search.emptied (c : Search) (fails : Loc → Option Errno) : Search :=
  { c with fs := c.fs.emptied fails }

@[simp] theorem Search.failing_fs (c : Search) (fails : Loc → Option Errno) :
    (c.failing fails).fs = c.fs.failing fails := rfl

@[simp] theorem Search.emptied_fs (c : Search) (fails : Loc → Option Errno) :
    (c.emptied fails).fs = c.fs.emptied fails := rfl

@[simp] theorem Search.failing_flags (c : Search) (fails : Loc → Option Errno) :
    (c.failing fails).flags = c.flags := rfl

@[simp] theorem Search.emptied_flags (c : Search) (fails : Loc → Option Errno) :
    (c.emptied fails).flags = c.flags := rfl

section Loops

variable {g : Loc → Inode → Inode} (hg : KeepsShape g) (c : Search)
  (child : DirSearch → Int × DirSearch) (loc : Loc)
include hg

theorem searchEntries_mapInodes (dir : Nat) :
    ∀ (es : List Dirent) (ds : DirSearch),
      searchEntries { c with fs := c.fs.mapInodes g } child loc dir es ds =
        searchEntries c child loc dir es ds
  | [], _ => rfl
  | e :: es, ds => by
    simp only [searchEntries, matchedEntry_mapInodes c.fs hg c rfl,
      searchEntries_mapInodes dir es]
    rfl

theorem readEntries_mapInodes :
    ∀ (chunks : List (Except Errno (List Dirent))) (ds : DirSearch),
      readEntries { c with fs := c.fs.mapInodes g } child loc chunks ds =
        readEntries c child loc chunks ds
  | [], _ => rfl
  | .error _ :: _, _ => rfl
  | .ok [] :: _, _ => rfl
  | .ok (e :: es) :: rest, ds => by
    simp only [readEntries, searchEntries_mapInodes hg, readEntries_mapInodes rest]

/-- An opened directory is searched alike on both trees: only opening tells them apart. -/
theorem searchOpened_mapInodes (i : Inode) (fp : Nat) (ds : DirSearch) :
    searchOpened { c with fs := c.fs.mapInodes g } child loc i fp ds =
      searchOpened c child loc i fp ds := by
  simp only [searchOpened, readEntries_mapInodes hg]
  rfl

theorem literalRoots_mapInodes :
    ∀ (roots : List (List Char)) (ds : DirSearch),
      literalRoots { c with fs := c.fs.mapInodes g } roots ds = literalRoots c roots ds
  | [], _ => rfl
  | r :: rs, ds => by
    simp only [literalRoots, Fs.resolve_mapInodes c.fs hg, Fs.lookup_mapInodes c.fs hg, statRef,
      statTarget, Fs.getattr_mapInodes c.fs hg, literalRoots_mapInodes rs]
    rfl

end Loops

/-! ### Where the two runs stand -/

/-- Where the two runs stand below the directory whose canonical path is `D`: the same output
fields, `ds->base` and status, a `ds->base` set by a level above, and both paths below `D`. -/
structure Apart (D : List Char) (ds₁ ds₂ : DirSearch) : Prop where
  ledger : ds₁.ledger = ds₂.ledger
  base : ds₁.base = ds₂.base
  status : ds₁.status = ds₂.status
  pos : 0 < ds₁.base
  below₁ : D <+: ds₁.path
  below₂ : D <+: ds₂.path

/-- Twin states at the path `D`, with `ds->base` set. -/
def TwinAt (D : List Char) (ds₁ ds₂ : DirSearch) : Prop :=
  Twin ds₁ ds₂ ∧ ds₁.path = D ∧ 0 < ds₁.base

/-- Where a step of the two runs lands: both go on, in states related by `R`, or both stop, in
states related by `E`. -/
def LandsBoth (R E : DirSearch → DirSearch → Prop) :
    Except DirSearch DirSearch → Except DirSearch DirSearch → Prop
  | .ok ds₁, .ok ds₂ => R ds₁ ds₂
  | .error ds₁, .error ds₂ => E ds₁ ds₂
  | _, _ => False

/-- What the two runs of a level below the directory at `D` return: the same value, in states
`Apart` but for the status, which the caller overwrites (line 1391). -/
def LevelTwin (D : List Char) (o₁ o₂ : Int × DirSearch) : Prop :=
  o₁.1 = o₂.1 ∧ Apart D { o₁.2 with status := 0 } { o₂.2 with status := 0 }

/-- What the walk needs of the two searches of the subdirectory `n` of the directory at `D`. -/
def ChildTwin (D n : List Char) (child₁ child₂ : DirSearch → Int × DirSearch) : Prop :=
  ∀ ds₁ ds₂, Twin ds₁ ds₂ → ds₁.path = D ++ '/' :: n → 0 < ds₁.base →
    LevelTwin D (child₁ ds₁) (child₂ ds₂)

theorem Twin.apart {D : List Char} {ds₁ ds₂ : DirSearch} (h : Twin ds₁ ds₂) (hb : 0 < ds₁.base)
    (hD : D <+: ds₁.path) : Apart D ds₁ ds₂ :=
  ⟨h.ledger, h.base, h.status, hb, hD, h.path ▸ hD⟩

namespace TwinAt

variable {D : List Char} {ds₁ ds₂ : DirSearch}

theorem apart (h : TwinAt D ds₁ ds₂) : Apart D ds₁ ds₂ :=
  h.1.apart h.2.2 (h.2.1 ▸ List.prefix_refl _)

/-- At the path built for an entry, the states are below the directory. -/
theorem entry {n : List Char} (h : TwinAt (D ++ '/' :: n) ds₁ ds₂) : Apart D ds₁ ds₂ :=
  h.1.apart h.2.2 (h.2.1 ▸ List.prefix_append _ _)

theorem setStatus (h : TwinAt D ds₁ ds₂) (s : Int) :
    TwinAt D { ds₁ with status := s } { ds₂ with status := s } :=
  ⟨h.1.setStatus s, h.2.1, h.2.2⟩

end TwinAt

namespace Apart

variable {D : List Char} {ds₁ ds₂ : DirSearch}

theorem mono {D' : List Char} (h : Apart D ds₁ ds₂) (hD : D' <+: D) : Apart D' ds₁ ds₂ :=
  { h with below₁ := hD.trans h.below₁, below₂ := hD.trans h.below₂ }

theorem setStatus (h : Apart D ds₁ ds₂) (s : Int) :
    Apart D { ds₁ with status := s } { ds₂ with status := s } :=
  { h with status := rfl }

/-- `filp_close` on either run, whatever the numbers of the files. -/
theorem release (h : Apart D ds₁ ds₂) (fp₁ fp₂ : Nat) :
    Apart D (ds₁.release (.file fp₁)) (ds₂.release (.file fp₂)) :=
  ⟨h.ledger, h.base, h.status, h.pos, h.below₁, h.below₂⟩

/-- The cut after an entry (line 1399) brings both runs back to the directory's path. -/
theorem cut (h : Apart D ds₁ ds₂) :
    TwinAt D { ds₁ with path := ds₁.path.take D.length } { ds₂ with path := ds₂.path.take D.length } :=
  ⟨Twin.of_fields h.ledger (by rw [← List.prefix_iff_eq_take.mp h.below₁,
      ← List.prefix_iff_eq_take.mp h.below₂]) h.base h.status,
    (List.prefix_iff_eq_take.mp h.below₁).symm, h.pos⟩

end Apart

theorem LandsBoth.bind {R R' E : DirSearch → DirSearch → Prop} {x₁ x₂ : Except DirSearch DirSearch}
    {f₁ f₂ : DirSearch → Except DirSearch DirSearch} (hx : LandsBoth R E x₁ x₂)
    (hf : ∀ ds₁ ds₂, R ds₁ ds₂ → LandsBoth R' E (f₁ ds₁) (f₂ ds₂)) :
    LandsBoth R' E (x₁ >>= f₁) (x₂ >>= f₂) := by
  cases x₁ <;> cases x₂
  · exact hx
  · exact hx.elim
  · exact hx.elim
  · exact hf _ _ hx

/-! ### The loops of one level on the two trees -/

section Loop

variable (c : Search) {child₁ child₂ : DirSearch → Int × DirSearch} {loc : Loc}

/-- A matched entry lands alike from twin states, at the path built for the entry. -/
private theorem matchedEntry_landsBoth (loc : Loc) (e : Dirent) {D n : List Char} {ds₁ ds₂ : DirSearch}
    (h : TwinAt (D ++ '/' :: n) ds₁ ds₂) :
    LandsBoth (TwinAt (D ++ '/' :: n)) (Apart D) (matchedEntry c loc e ds₁)
      (matchedEntry c loc e ds₂) := by
  have heq := matchedEntry_twin c loc e h.1
  have hk := matchedEntry_keeps c loc e ds₁
  revert heq hk
  cases matchedEntry c loc e ds₁ <;> cases matchedEntry c loc e ds₂ <;> intro heq hk <;>
    simp only [DirSearch.eraseOut, Except.ok.injEq, Except.error.injEq, reduceCtorEq, stateOf]
      at heq hk ⊢
  · exact TwinAt.entry ⟨heq, hk.1.trans h.2.1, hk.2 ▸ h.2.2⟩
  · exact ⟨heq, hk.1.trans h.2.1, hk.2 ▸ h.2.2⟩

/-- The search of a subdirectory, which overwrites the status with what the two runs return. -/
private theorem descend_landsBoth {D : List Char} {ds₁ ds₂ : DirSearch}
    (h : LevelTwin D (child₁ ds₁) (child₂ ds₂)) :
    LandsBoth (Apart D) (Apart D) (descend c child₁ ds₁) (descend c child₂ ds₂) := by
  unfold descend
  generalize child₁ ds₁ = o₁ at h ⊢
  generalize child₂ ds₂ = o₂ at h ⊢
  obtain ⟨r, a⟩ := o₁
  obtain ⟨r', b⟩ := o₂
  dsimp only at h ⊢
  obtain ⟨rfl, hA⟩ := h
  have hres : a.results = b.results := congrArg Ledger.results hA.ledger
  by_cases h0 : r ≠ 0
  · rw [if_pos h0, if_pos h0]
    exact hA.setStatus r
  rw [if_neg h0, if_neg h0]
  by_cases hf : 0 < a.results ∧ hasFlag c.flags searchStopatfirst = true
  · rw [if_pos hf, if_pos (hres ▸ hf)]
    exact hA.setStatus r
  · rw [if_neg hf, if_neg (hres ▸ hf)]
    exact hA.setStatus r

theorem searchEntries_twin :
    ∀ (es : List Dirent) (ds₁ ds₂ : DirSearch),
      (∀ e ∈ es, e.isDir → e.name ≠ ['.'] → e.name ≠ ['.', '.'] →
        ChildTwin (absPath loc) e.name child₁ child₂) →
      TwinAt (absPath loc) ds₁ ds₂ →
      LandsBoth (TwinAt (absPath loc)) (Apart (absPath loc))
        (searchEntries c child₁ loc (absPath loc).length es ds₁)
        (searchEntries c child₂ loc (absPath loc).length es ds₂)
  | [], _, _, _, h => h
  | e :: es, ds₁, ds₂, hc, ⟨h, hp, hb⟩ => by
    have h1 : Twin ((ds₁.strcat ['/']).strcat e.name) ((ds₂.strcat ['/']).strcat e.name) :=
      Twin.map (fun d => (d.strcat ['/']).strcat e.name) (fun _ => rfl) h
    have hp1 : ((ds₁.strcat ['/']).strcat e.name).path = absPath loc ++ '/' :: e.name := by
      rw [path_strcat_name, hp]
    have hhow : matchPathname (((ds₂.strcat ['/']).strcat e.name).path.drop
        ((ds₂.strcat ['/']).strcat e.name).base) c.pattern =
          matchPathname (((ds₁.strcat ['/']).strcat e.name).path.drop
            ((ds₁.strcat ['/']).strcat e.name).base) c.pattern := by
      rw [h1.path, h1.base]
    rw [SearchSyscall.searchEntries, SearchSyscall.searchEntries, hhow]
    refine LandsBoth.bind (R := TwinAt (absPath loc ++ '/' :: e.name)) ?_ fun a b hab =>
      LandsBoth.bind (R := Apart (absPath loc)) ?_ fun a b hab =>
      searchEntries_twin es _ _ (fun e' he' => hc e' (.tail _ he')) hab.cut
    · split
      · exact matchedEntry_landsBoth c loc e ⟨h1, hp1, hb⟩
      · exact ⟨h1, hp1, hb⟩
    · split
      · rename_i hd
        obtain ⟨hdir, hn1, hn2, -⟩ := hd
        exact descend_landsBoth c (hc e (.head _) hdir hn1 hn2 a b hab.1 hab.2.1 hab.2.2)
      · exact hab.entry

theorem readEntries_twin :
    ∀ (chunks : List (Except Errno (List Dirent))) (ds₁ ds₂ : DirSearch),
      (∀ e ∈ listing chunks, e.isDir → e.name ≠ ['.'] → e.name ≠ ['.', '.'] →
        ChildTwin (absPath loc) e.name child₁ child₂) →
      TwinAt (absPath loc) ds₁ ds₂ →
      LandsBoth (TwinAt (absPath loc)) (Apart (absPath loc))
        (readEntries c child₁ loc chunks ds₁) (readEntries c child₂ loc chunks ds₂)
  | [], _, _, _, h => h.setStatus 0
  | .error _ :: _, _, _, _, h => (h.setStatus _).apart
  | .ok [] :: _, _, _, _, h => h.setStatus 0
  | .ok (e :: es) :: rest, ds₁, ds₂, hc, h => by
    have hlen₁ : ds₁.path.length = (absPath loc).length := by rw [h.2.1]
    have hlen₂ : ds₂.path.length = (absPath loc).length := by rw [← h.1.path, h.2.1]
    rw [SearchSyscall.readEntries, SearchSyscall.readEntries, hlen₁, hlen₂]
    exact LandsBoth.bind (searchEntries_twin c (e :: es) _ _
        (fun e' he' => hc e' (List.mem_append_left _ he')) (h.setStatus 0))
      fun a b hab => readEntries_twin rest a b (fun e' he' => hc e' (List.mem_append_right _ he')) hab

/-- The state in which an opened directory is searched (lines 1312-1318): its canonical path in
`ds->path`, status `0`, and `ds->base` set on the first level. -/
def openedState (canon : List Char) (ds : DirSearch) : DirSearch :=
  let ds := { ds.setPath canon with status := 0 }
  if ds.base = 0 then { ds with base := ds.path.length } else ds

theorem searchOpened_eq (child : DirSearch → Int × DirSearch) (loc : Loc) (i : Inode) (fp : Nat)
    (ds : DirSearch) :
    searchOpened c child loc i fp ds =
      match abspath loc with
      | .error e => closeDir fp { ds with status := e.neg }
      | .ok canon =>
        match i.search with
        | some hook => delegate c loc hook fp (openedState canon ds)
        | none => closeDir fp (stateOf (readEntries c child loc i.readdir (openedState canon ds))) :=
  rfl

private theorem openedState_twin (loc : Loc) {ds₁ ds₂ : DirSearch} (h : Twin ds₁ ds₂) :
    TwinAt (absPath loc) (openedState (absPath loc) ds₁) (openedState (absPath loc) ds₂) := by
  unfold openedState
  dsimp only [DirSearch.setPath]
  rw [← h.base]
  split
  · exact ⟨Twin.of_fields h.ledger rfl rfl rfl, rfl, List.length_pos.mpr (absPath_ne_nil loc)⟩
  · exact ⟨Twin.of_fields h.ledger rfl rfl rfl, rfl, Nat.pos_of_ne_zero ‹_›⟩

/-- An opened directory, searched from twin states on the two trees: the same value and output
fields, and, once `ds->base` is set, states `Apart` below any `D` both the path and the
directory's canonical path are below. -/
theorem searchOpened_twin {i : Inode} (fp₁ fp₂ : Nat) {D : List Char}
    (hc : ∀ e ∈ listing i.readdir, e.isDir → e.name ≠ ['.'] → e.name ≠ ['.', '.'] →
      ChildTwin (absPath loc) e.name child₁ child₂)
    {ds₁ ds₂ : DirSearch} (h : Twin ds₁ ds₂) (hD : D <+: ds₁.path) (hloc : D <+: absPath loc) :
    (searchOpened c child₁ loc i fp₁ ds₁).1 = (searchOpened c child₂ loc i fp₂ ds₂).1 ∧
      (searchOpened c child₁ loc i fp₁ ds₁).2.ledger =
        (searchOpened c child₂ loc i fp₂ ds₂).2.ledger ∧
      (0 < ds₁.base →
        Apart D (searchOpened c child₁ loc i fp₁ ds₁).2 (searchOpened c child₂ loc i fp₂ ds₂).2) := by
  rw [searchOpened_eq, searchOpened_eq]
  rcases hcanon : abspath loc with e | canon
  · exact ⟨rfl, h.ledger, fun hb => ((h.apart hb hD).setStatus e.neg).release fp₁ fp₂⟩
  obtain rfl := eq_absPath_of_abspath hcanon
  dsimp only
  have hT := openedState_twin loc h
  generalize openedState (absPath loc) ds₁ = s₁ at hT ⊢
  generalize openedState (absPath loc) ds₂ = s₂ at hT ⊢
  cases i.search with
  | some hook =>
    obtain ⟨hr, hd⟩ := delegate_twin c loc hook fp₁ fp₂ hT.1
    obtain ⟨hp, hb⟩ := delegate_keeps c loc hook fp₁ s₁
    exact ⟨hr, hd.ledger, fun _ => hd.apart (hb ▸ hT.2.2) (hp ▸ hT.2.1 ▸ hloc)⟩
  | none =>
    have hl := readEntries_twin c i.readdir s₁ s₂ hc hT
    generalize readEntries c child₁ loc i.readdir s₁ = o₁ at hl ⊢
    generalize readEntries c child₂ loc i.readdir s₂ = o₂ at hl ⊢
    cases o₁ <;> cases o₂
    · exact ⟨hl.status, hl.ledger, fun _ => (hl.mono hloc).release fp₁ fp₂⟩
    · exact hl.elim
    · exact hl.elim
    · exact ⟨hl.1.status, hl.1.ledger, fun _ => (hl.apart.mono hloc).release fp₁ fp₂⟩

end Loop

/-! ### The levels on the two trees -/

theorem searchOpened_failing (c : Search) (fails : Loc → Option Errno) :
    searchOpened (c.failing fails) = searchOpened c := by
  funext child loc i fp ds
  exact searchOpened_mapInodes (failing_keepsShape fails) c child loc i fp ds

theorem searchOpened_emptied (c : Search) (fails : Loc → Option Errno) :
    searchOpened (c.emptied fails) = searchOpened c := by
  funext child loc i fp ds
  exact searchOpened_mapInodes (emptied_keepsShape fails) c child loc i fp ds

/-- An emptied directory whose canonical path fits returns `0`, with the output fields as they
were, its canonical path in `ds->path`, and `ds->base` kept once set. -/
theorem searchOpened_empty (c : Search) (child : DirSearch → Int × DirSearch) (loc : Loc)
    {i : Inode} (hs : i.search = none) (hr : i.readdir = []) (fp : Nat) (ds : DirSearch)
    (hfit : (absPath loc).length + 1 ≤ pathMax) :
    (searchOpened c child loc i fp ds).1 = 0 ∧ (searchOpened c child loc i fp ds).2.ledger = ds.ledger ∧
      (searchOpened c child loc i fp ds).2.path = absPath loc ∧
      (0 < ds.base → (searchOpened c child loc i fp ds).2.base = ds.base) := by
  rw [searchOpened_eq, abspath, if_pos hfit]
  dsimp only
  rw [hs, hr]
  unfold openedState
  dsimp only [DirSearch.setPath]
  split
  · exact ⟨rfl, rfl, rfl, fun hb => absurd ‹_› (Nat.pos_iff_ne_zero.mp hb)⟩
  · exact ⟨rfl, rfl, rfl, fun _ => rfl⟩

/-- Emptying directories lists no new name. -/
theorem Fs.PlainNames.emptied {fs : Fs} (hN : fs.PlainNames) (fails : Loc → Option Errno) :
    (fs.emptied fails).PlainNames where
  cwd := hN.cwd
  listed loc i h e he := by
    simp only [Fs.emptied, Fs.mapInodes, Option.map_eq_some'] at h
    obtain ⟨i₀, h₀, rfl⟩ := h
    refine hN.listed loc i₀ h₀ e ?_
    revert he
    split <;> simp [listing]

section Levels

variable (c : Search) (fails : Loc → Option Errno)
  (hskip : ∀ d e, fails d = some e → skipsOpenError e)
  (hfit : ∀ d e, fails d = some e → (absPath d).length + 1 ≤ pathMax) (hN : c.fs.PlainNames)
include hskip hfit hN

/-- A level below the first, on the two trees, from twin states at the path built for an entry:
where the path opens nothing, both fail alike; where the directory cannot be opened, the skip
returns `0` and keeps that path; the emptied directory returns `0` with its canonical path; both
are below the parent's, and `ds->base` is kept. -/
theorem searchLevels_twin :
    ∀ (k : Nat) (loc : Loc) (i : Inode), PlainLoc loc → (c.fs.emptied fails).node loc = some i →
      ∀ e ∈ listing i.readdir, e.isDir → e.name ≠ ['.'] → e.name ≠ ['.', '.'] →
        ChildTwin (absPath loc) e.name (searchLevels (c.failing fails) k)
          (searchLevels (c.emptied fails) k)
  | 0, _, _, _, _, _, _, _, _, _, _, _, h, hp, hb =>
    ⟨rfl, (h.apart hb (hp ▸ List.prefix_append _ _)).setStatus 0⟩
  | k + 1, loc, i, hloc, hi, e, he, _, hn1, hn2, ds₁, ds₂, h, hp, hb => by
    have hN₂ := hN.emptied fails
    have hD : absPath loc <+: ds₁.path := hp ▸ List.prefix_append _ _
    have e₂ : (c.fs.emptied fails).filpOpen ds₂.path = (c.fs.emptied fails).filpOpen ds₁.path := by
      rw [h.path]
    rw [searchLevels_succ, searchLevels_succ, Search.failing_fs, Search.emptied_fs, e₂]
    rcases ho : (c.fs.emptied fails).filpOpen ds₁.path with err | ⟨loc', j⟩
    · rcases Fs.filpOpen_failing c.fs fails ds₁.path with heq | ⟨_, _, _, _, _, h2⟩
      · rw [heq, ho]
        exact ⟨rfl, (h.apart hb hD).setStatus 0⟩
      · rw [ho] at h2
        cases h2
    have hbelow : absPath loc <+: absPath loc' := hN₂.entry_below hloc hi he hn1 hn2 (hp ▸ ho)
    have hloc' : PlainLoc loc' := Fs.resolve_plain hN₂.cwd ((c.fs.emptied fails).filpOpen_ok ho).1
    rcases Fs.filpOpen_failing c.fs fails ds₁.path with heq | ⟨l, i', e', hf, h1, h2⟩
    · rw [heq, ho]
      dsimp only
      rw [searchOpened_failing, searchOpened_emptied]
      obtain ⟨hr, -, hA⟩ := searchOpened_twin c ds₁.fresh ds₂.fresh
        (searchLevels_twin k loc' j hloc' ((c.fs.emptied fails).filpOpen_node ho))
        (Twin.map (fun d => { d with status := 0, fresh := d.fresh + 1 }.acquire (.file d.fresh))
          (fun _ => by rfl) h) hD hbelow
      exact ⟨hr, (hA hb).setStatus 0⟩
    · obtain ⟨rfl, rfl⟩ : l = loc' ∧
          { i' with openErr := none, search := none, readdir := [] } = j := by
        simpa using h2.symm.trans ho
      rw [h1]
      dsimp only
      rw [if_pos (hskip _ _ hf), searchOpened_emptied]
      obtain ⟨hr0, hl0, hp0, hb0⟩ := searchOpened_empty c (searchLevels (c.emptied fails) k)
        l (i := { i' with openErr := none, search := none, readdir := [] }) rfl rfl
        ds₂.fresh
        ({ ds₂ with status := 0, fresh := ds₂.fresh + 1 }.acquire (.file ds₂.fresh)) (hfit _ _ hf)
      exact ⟨hr0.symm, h.ledger.trans hl0.symm, h.base.trans (hb0 (h.base ▸ hb)).symm, rfl, hb, hD,
        hp0 ▸ hbelow⟩

/-- The first level, on the two trees, from states alike but for the status: the same value and
output fields.  The skipped root keeps the path and `ds->base` where the emptied one sets them;
the roots loop sets both again for the next root. -/
private theorem searchLevels_root_twin (k : Nat) (ds₁ ds₂ : DirSearch)
    (h : Twin { ds₁ with status := 0 } { ds₂ with status := 0 }) :
    (searchLevels (c.failing fails) (k + 1) ds₁).1 = (searchLevels (c.emptied fails) (k + 1) ds₂).1 ∧
      (searchLevels (c.failing fails) (k + 1) ds₁).2.ledger =
        (searchLevels (c.emptied fails) (k + 1) ds₂).2.ledger := by
  have e₂ : (c.fs.emptied fails).filpOpen ds₂.path = (c.fs.emptied fails).filpOpen ds₁.path := by
    rw [show ds₂.path = ds₁.path from h.path.symm]
  rw [searchLevels_succ, searchLevels_succ, Search.failing_fs, Search.emptied_fs, e₂]
  rcases Fs.filpOpen_failing c.fs fails ds₁.path with heq | ⟨l, i', e', hf, h1, h2⟩
  · rw [heq]
    rcases ho : (c.fs.emptied fails).filpOpen ds₁.path with e | ⟨l, j⟩
    · exact ⟨rfl, h.ledger⟩
    · dsimp only
      rw [searchOpened_failing, searchOpened_emptied]
      obtain ⟨hr, hl, -⟩ := searchOpened_twin c ds₁.fresh ds₂.fresh
        (searchLevels_twin c fails hskip hfit hN k l j
          (Fs.resolve_plain (hN.emptied fails).cwd ((c.fs.emptied fails).filpOpen_ok ho).1)
          ((c.fs.emptied fails).filpOpen_node ho))
        (Twin.map (fun d => { d with fresh := d.fresh + 1 }.acquire (.file d.fresh)) (fun _ => by rfl) h)
        List.nil_prefix List.nil_prefix
      exact ⟨hr, hl⟩
  · rw [h1, h2]
    dsimp only
    rw [if_pos (hskip _ _ hf), searchOpened_emptied]
    obtain ⟨hr0, hl0, -⟩ := searchOpened_empty c (searchLevels (c.emptied fails) k) l
      (i := { i' with openErr := none, search := none, readdir := [] }) rfl rfl ds₂.fresh ({ ds₂ with status := 0, fresh := ds₂.fresh + 1 }.acquire (.file ds₂.fresh))
      (hfit _ _ hf)
    exact ⟨hr0.symm, h.ledger.trans hl0.symm⟩

/-- Where the roots loops on the two trees end: the same status when they stop, and the same
output fields. -/
def RootsTwin : Except (Int × DirSearch) DirSearch → Except (Int × DirSearch) DirSearch → Prop
  | .ok ds₁, .ok ds₂ => ds₁.ledger = ds₂.ledger
  | .error (st₁, ds₁), .error (st₂, ds₂) => st₁ = st₂ ∧ ds₁.ledger = ds₂.ledger
  | _, _ => False

/-- The roots loop on the two trees, from states with the same output fields: each root starts
from its own path with `ds->base` cleared, so the skip at a root leaves nothing behind. -/
theorem walkRoots_twin :
    ∀ (roots : List (List Char)) (ds₁ ds₂ : DirSearch), ds₁.ledger = ds₂.ledger →
      RootsTwin (walkRoots (c.failing fails) roots ds₁) (walkRoots (c.emptied fails) roots ds₂)
  | [], _, _, hl => hl
  | r :: rs, ds₁, ds₂, hl => by
    obtain ⟨hr, hl'⟩ := searchLevels_root_twin c fails hskip hfit hN (treeDepth - (0 + 1))
      { ds₁.setPath r with base := 0 } { ds₂.setPath r with base := 0 } (Twin.of_fields hl rfl rfl rfl)
    rw [walkRoots, walkRoots, searchDirectory_of_lt (by decide), searchDirectory_of_lt (by decide)]
    generalize searchLevels (c.failing fails) (treeDepth - (0 + 1) + 1)
      { ds₁.setPath r with base := 0 } = o₁ at hr hl' ⊢
    generalize searchLevels (c.emptied fails) (treeDepth - (0 + 1) + 1)
      { ds₂.setPath r with base := 0 } = o₂ at hr hl' ⊢
    obtain ⟨st, a⟩ := o₁
    obtain ⟨st', b⟩ := o₂
    dsimp only at hr hl' ⊢
    subst hr
    have hres : a.results = b.results := congrArg Ledger.results hl'
    simp only [Search.failing_flags, Search.emptied_flags]
    by_cases h0 : st ≠ 0
    · rw [if_pos h0, if_pos h0]
      exact ⟨rfl, hl'⟩
    rw [if_neg h0, if_neg h0]
    by_cases hf : 0 < a.results ∧ hasFlag c.flags searchStopatfirst = true
    · rw [if_pos hf, if_pos (hres ▸ hf)]
      exact hl'
    · rw [if_neg hf, if_neg (hres ▸ hf)]
      exact walkRoots_twin rs a b hl'

end Levels

/-- The closing write reads only the output fields. -/
private theorem closeOutput_twin {ds₁ ds₂ : DirSearch} (h : ds₁.ledger = ds₂.ledger) :
    (closeOutput ds₁).1 = (closeOutput ds₂).1 ∧
      (closeOutput ds₁).2.ledger = (closeOutput ds₂).2.ledger := by
  cases ds₁
  cases ds₂
  obtain ⟨rfl, rfl, rfl, rfl, rfl, rfl, rfl⟩ := Ledger.mk.inj h
  unfold closeOutput DirSearch.userWrite
  generalize UserMem.copyToUser _ _ _ = w
  obtain ⟨m, l⟩ := w
  dsimp only
  split_ifs <;> exact ⟨rfl, rfl⟩

private theorem finish_twin {o₁ o₂ : Except (Int × DirSearch) DirSearch} (h : RootsTwin o₁ o₂) :
    (finish o₁).1 = (finish o₂).1 ∧ (finish o₁).2.ledger = (finish o₂).2.ledger :=
  match o₁, o₂, h with
  | .ok _, .ok _, h => closeOutput_twin h
  | .error (_, _), .error (_, _), h => h

/-- The literal shortcut never opens a directory: it runs alike on both trees. -/
private theorem literalRoots_failing (fs : Fs) (fails : Loc → Option Errno) (p : List Char) (fl : Nat)
    (r : Bool) : literalRoots ⟨fs.failing fails, p, fl, r⟩ = literalRoots ⟨fs, p, fl, r⟩ :=
  funext fun roots => funext (literalRoots_mapInodes (failing_keepsShape fails) ⟨fs, p, fl, r⟩ roots)

private theorem literalRoots_emptied (fs : Fs) (fails : Loc → Option Errno) (p : List Char) (fl : Nat)
    (r : Bool) : literalRoots ⟨fs.emptied fails, p, fl, r⟩ = literalRoots ⟨fs, p, fl, r⟩ :=
  funext fun roots => funext (literalRoots_mapInodes (emptied_keepsShape fails) ⟨fs, p, fl, r⟩ roots)

/-- A search on a tree where `filp_open` fails with `ENOENT`, `EPERM`, `EACCES` or `ENODEV` on
some directories, the root included, returns the same value and leaves the same output (the count,
the cursor, the remaining length, the buffer, and the records of what was emitted, reported and
written) as on the tree where those directories are empty, provided each of their canonical paths
fits in `PATH_MAX` with its NUL; on a tree whose directories list no name holding `/`, seen from a
current directory named by plain names. -/
theorem search_skip_eq_empty (env : Env) (fails : Loc → Option Errno)
    (paths pattern : Option (List Char)) (flags : Nat) (len : UInt64)
    (hskip : ∀ d e, fails d = some e → skipsOpenError e)
    (hfit : ∀ d e, fails d = some e → (absPath d).length + 1 ≤ pathMax) (hN : env.fs.PlainNames) :
    (search { env with fs := env.fs.failing fails } paths pattern flags len).1 =
        (search { env with fs := env.fs.emptied fails } paths pattern flags len).1 ∧
      (search { env with fs := env.fs.failing fails } paths pattern flags len).2.ledger =
        (search { env with fs := env.fs.emptied fails } paths pattern flags len).2.ledger := by
  unfold search
  dsimp only
  split
  · exact ⟨rfl, rfl⟩
  split
  · exact ⟨rfl, rfl⟩
  cases getname paths with
  | error e => exact ⟨rfl, rfl⟩
  | ok ps =>
    cases getname pattern with
    | error e => exact ⟨rfl, rfl⟩
    | ok pat =>
      dsimp only
      split
      · split
        · exact ⟨rfl, rfl⟩
        · generalize ((((DirSearch.init env.mem len.toNat).acquire .ds).acquire (.name .paths 0)).acquire
            (.name .pattern 0)).acquire .dirs = X
          have hw := finish_twin
            (walkRoots_twin ⟨env.fs, pat, flags, isrecursive pat⟩ fails hskip hfit hN (ps.splitOn '|') X X rfl)
          simp only [Search.failing, Search.emptied] at hw
          generalize finish (walkRoots ⟨env.fs.failing fails, pat, flags, isrecursive pat⟩
            (ps.splitOn '|') X) = o₁ at hw ⊢
          generalize finish (walkRoots ⟨env.fs.emptied fails, pat, flags, isrecursive pat⟩
            (ps.splitOn '|') X) = o₂ at hw ⊢
          rw [ledger_putNames, ledger_putNames, DirSearch.ledger_release, DirSearch.ledger_release]
          exact hw
      · rw [literalRoots_failing, literalRoots_emptied]
        simp only [and_self]

/-- `/t/s` of `smallFs` cannot be opened (`EACCES`). -/
def smallFails (loc : Loc) : Option Errno := if loc = [['t'], ['s']] then some eacces else none

theorem search_skip_eq_empty_small :
    (∀ d e, smallFails d = some e → skipsOpenError e) ∧
      (∀ d e, smallFails d = some e → (absPath d).length + 1 ≤ pathMax) ∧ smallEnv.fs.PlainNames ∧
      (search { smallEnv with fs := smallEnv.fs.failing smallFails } (some "/t".toList)
          (some "*".toList) 0 100).1 =
        (search { smallEnv with fs := smallEnv.fs.emptied smallFails } (some "/t".toList)
          (some "*".toList) 0 100).1 ∧
      (search { smallEnv with fs := smallEnv.fs.failing smallFails } (some "/t".toList)
          (some "*".toList) 0 100).2.ledger =
        (search { smallEnv with fs := smallEnv.fs.emptied smallFails } (some "/t".toList)
          (some "*".toList) 0 100).2.ledger := by
  have hs : ∀ d e, smallFails d = some e → d = [['t'], ['s']] ∧ e = eacces := fun d e h => by
    unfold smallFails at h
    split at h
    · exact ⟨‹_›, (Option.some.inj h).symm⟩
    · cases h
  have h1 : ∀ d e, smallFails d = some e → skipsOpenError e := fun d e h => (hs d e h).2 ▸ by decide
  have h2 : ∀ d e, smallFails d = some e → (absPath d).length + 1 ≤ pathMax := fun d e h =>
    (hs d e h).1 ▸ by decide
  exact ⟨h1, h2, smallFs_plainNames,
    search_skip_eq_empty smallEnv smallFails _ _ 0 100 h1 h2 smallFs_plainNames⟩

/-! ### A root whose canonical path does not fit -/

/-- A name of `NAME_MAX` bytes. -/
def longName : List Char := List.replicate nameMax 'a'

/-- Sixteen nested directories named `longName` below `/`, the deepest of which is the current
directory of the calling process: its canonical path has `16 * (NAME_MAX + 1) = PATH_MAX` bytes. -/
def deepFs : Fs where
  node loc := if loc = List.replicate loc.length longName ∧ loc.length ≤ 16 then
      some (dirNode (if loc.length < 16 then [⟨longName, true⟩] else [])) else none
  cwd := List.replicate 16 longName
  mountPath _ := ['/']

/-- The current directory of `deepFs` cannot be opened (`EACCES`: no read permission). -/
def deepFails (loc : Loc) : Option Errno := if loc = deepFs.cwd then some eacces else none

theorem longName_ne : longName ≠ [] ∧ longName ≠ ['.'] ∧ longName ≠ ['.', '.'] ∧ '/' ∉ longName := by
  rw [show longName = 'a' :: List.replicate 254 'a' from rfl]
  refine ⟨List.cons_ne_nil _ _, fun h => absurd (List.head_eq_of_cons_eq h) (by decide),
    fun h => absurd (List.head_eq_of_cons_eq h) (by decide), fun h => ?_⟩
  rcases List.mem_cons.mp h with h | h
  · exact absurd h (by decide)
  · exact absurd (List.eq_of_mem_replicate h) (by decide)

theorem deepFs_node {k : Nat} (hk : k ≤ 16) :
    deepFs.node (List.replicate k longName) =
      some (dirNode (if k < 16 then [⟨longName, true⟩] else [])) := by
  simp [deepFs, hk]

private theorem deepFs_node_elim {loc : Loc} {i : Inode} (h : deepFs.node loc = some i) :
    ∃ k ≤ 16, loc = List.replicate k longName ∧ i = dirNode (if k < 16 then [⟨longName, true⟩] else []) := by
  simp only [deepFs] at h
  split at h
  · rename_i hc
    exact ⟨loc.length, hc.2, hc.1, (Option.some.inj h).symm⟩
  · cases h

private theorem deepFs_plainNames : deepFs.PlainNames where
  cwd _ hn := List.eq_of_mem_replicate hn ▸ longName_ne
  listed _ _ h e he := by
    obtain ⟨k, -, -, rfl⟩ := deepFs_node_elim h
    by_cases hk : k < 16
    · simp only [hk, if_true, dirNode, listing, List.append_nil, List.mem_singleton] at he
      exact he ▸ longName_ne.2.2.2
    · simp [hk, dirNode, listing] at he

private theorem length_flatMap_replicate (n : List Char) (k : Nat) :
    ((List.replicate k n).flatMap ('/' :: ·)).length = k * (n.length + 1) := by
  induction k with
  | zero => simp
  | succ k ih =>
    rw [List.replicate_succ, List.flatMap_cons, List.length_append, List.length_cons, ih, Nat.succ_mul]
    omega

/-- The current directory's canonical path has `PATH_MAX` bytes. -/
theorem deepFs_cwd_length : (absPath deepFs.cwd).length = pathMax :=
  (length_flatMap_replicate longName 16).trans (by rw [longName, List.length_replicate]; rfl)

theorem deepFs_resolve_dot : deepFs.resolve ['.'] = .ok deepFs.cwd := by
  have hstep : deepFs.step [] deepFs.cwd ['.'] = .ok deepFs.cwd := by
    rw [Fs.step, show deepFs.cwd = List.replicate 16 longName from rfl, deepFs_node le_rfl]
    rfl
  rw [Fs.resolve, Fs.lookup, if_neg (List.cons_ne_nil _ _), show ['.'].splitOn '/' = [['.']] from rfl,
    Fs.walk.eq_3 _ _ _ _ _ (List.cons_ne_nil _ _)]
  rw [if_neg (by decide : ¬ ['.'].head? = some '/'), hstep]
  rfl

private theorem deepFs_failing_open :
    (deepFs.failing deepFails).filpOpen ['.'] = .error eacces := by
  rw [Fs.filpOpen, Fs.failing, Fs.resolve_mapInodes _ (failing_keepsShape deepFails), deepFs_resolve_dot]
  simp only [Fs.mapInodes, show deepFs.cwd = List.replicate 16 longName from rfl, deepFs_node le_rfl,
    Option.map_some', deepFails, if_true]
  rfl

private theorem deepFs_emptied_open :
    (deepFs.emptied deepFails).filpOpen ['.'] =
      .ok (deepFs.cwd, { dirNode [] with openErr := none, search := none, readdir := [] }) := by
  rw [Fs.filpOpen, Fs.emptied, Fs.resolve_mapInodes _ (emptied_keepsShape deepFails), deepFs_resolve_dot]
  simp only [Fs.mapInodes, show deepFs.cwd = List.replicate 16 longName from rfl, deepFs_node le_rfl,
    Option.map_some', deepFails, if_true]
  rfl

/-- Searching the root `.` on `deepFs`, whose current directory cannot be opened, returns `0`; on
the tree where that directory is empty, the opened root's canonical path does not fit in
`PATH_MAX` with its NUL and `abspath` fails with `ENAMETOOLONG` (line 1312). `filp_open` is given
the one-byte path `.`, so nothing but `abspath` tells the two trees apart. -/
theorem search_skip_empty_long_path :
    (∀ d e, deepFails d = some e → skipsOpenError e) ∧ deepFs.PlainNames ∧
      (absPath deepFs.cwd).length = pathMax ∧
      (search ⟨deepFs.failing deepFails, bufMem, true, true, true⟩ (some ['.']) (some ['z', 'z'])
        0 100).1 = 0 ∧
      (search ⟨deepFs.emptied deepFails, bufMem, true, true, true⟩ (some ['.']) (some ['z', 'z'])
        0 100).1 = enametoolong.neg := by
  refine ⟨fun d e h => ?_, deepFs_plainNames, deepFs_cwd_length, ?_, ?_⟩
  · unfold deepFails at h
    split at h
    · cases h
      decide
    · cases h
  all_goals
    simp only [search, show getname (some ['.']) = .ok ['.'] from rfl,
      show getname (some ['z', 'z']) = .ok ['z', 'z'] from rfl, show ispattern ['z', 'z'] = true from rfl,
      show ['.'].splitOn '|' = [['.']] from rfl, Bool.not_true, Bool.false_eq_true, if_false, if_true]
    rw [walkRoots, searchDirectory_of_lt (by decide), searchLevels_succ]
    dsimp only [DirSearch.setPath]
  · rw [deepFs_failing_open]
    rfl
  · rw [deepFs_emptied_open]
    dsimp only
    rw [searchOpened_eq, abspath,
      if_neg (show ¬(absPath deepFs.cwd).length + 1 ≤ pathMax by rw [deepFs_cwd_length]; omega)]
    rfl

end SearchSyscall
