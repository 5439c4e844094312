import SearchSyscall.Lang
import SearchSyscall.SyscallLemmas

/-!
# The walk with its path

`Keeps` carries an invariant through the walk without looking at `ds->path`.  An invariant about
what a record holds under `SEARCH_INCLUDEROOT` needs the path at each matched entry.  `KeepsAt`
asks the matched step to keep the invariant only where the path is the canonical path of the
directory followed by `/` and the entry's name, and `KeepsAt.searchLevels` shows that, on a tree
whose directories list no name holding `/`, seen from a current directory named by plain names
(`Fs.PlainNames`), every matched entry is met there:

* each level replaces the path by the canonical path of the directory it opened (`abspath`,
  line 1312) and appends `/name` for each entry;
* a subdirectory's search that returns `0` leaves the path it was given or the canonical path of
  what that path opens (`LevelPath`): the entry, or the directory itself for an empty name
  (`Fs.PlainNames.entry_below`).  The cut after the entry (line 1399) brings either back to the
  directory's own path, unless a match under `SEARCH_STOPATFIRST` ends the walk (`FoundFirst`).

Below `/`, whose canonical path is one byte long, the path built for an entry `n` is `//n`, which
opens as `/n` (`Fs.filpOpen_entry`).  The path is restored there too, but `ds->base`, set to `1` from
the root's canonical path, then cuts the leading `/` off the path matched at every deeper level
(`search_root_slash_misses`).
-/

namespace SearchSyscall

open SearchMatched

/-! ### The path built for an entry -/

/-- The path `D/n` built for the entry `n` of the directory `loc` opens as the canonical path of
`loc ++ [n]`, also below `/`, where it is `//n`. -/
private theorem Fs.filpOpen_entry (fs : Fs) (loc : Loc) (n : List Char) :
    fs.filpOpen (absPath loc ++ '/' :: n) = fs.filpOpen (absPath (loc ++ [n])) :=
  fs.filpOpen_congr (fs.resolve_entry_eq loc n)

/-- The cut after an entry brings the canonical path of the subdirectory back to the directory's. -/
private theorem absPath_take_entry (loc : Loc) (n : List Char) :
    (absPath (loc ++ [n])).take (absPath loc).length = absPath loc := by
  cases loc with
  | nil => simp [absPath]
  | cons x xs => rw [absPath_append_single (List.cons_ne_nil x xs), List.take_left]

/-- A tree whose directories list no name holding `/`, seen from a current directory named by
plain names.  Every node path resolution reaches is then named by plain names
(`Fs.resolve_plain`), and the path built for an entry opens the entry or the directory itself. -/
structure Fs.PlainNames (fs : Fs) : Prop where
  cwd : PlainLoc fs.cwd
  listed : ∀ loc i, fs.node loc = some i → ∀ e ∈ listing i.readdir, '/' ∉ e.name

/-- What the path built for an entry other than `.` and `..` opens lies below the directory. -/
theorem Fs.PlainNames.entry_below {fs : Fs} (hN : fs.PlainNames) {loc : Loc} {i : Inode}
    (hloc : PlainLoc loc) (hi : fs.node loc = some i) {e : Dirent} (he : e ∈ listing i.readdir)
    (hn1 : e.name ≠ ['.']) (hn2 : e.name ≠ ['.', '.']) {loc' : Loc} {i' : Inode}
    (ho : fs.filpOpen (absPath loc ++ '/' :: e.name) = .ok (loc', i')) :
    absPath loc <+: absPath loc' := by
  rcases Fs.resolve_entry hloc (hN.listed loc i hi e he) hn1 hn2 (fs.filpOpen_ok ho).1 with h | h
  · exact h ▸ List.prefix_refl _
  · exact h ▸ List.prefix_iff_eq_take.mpr (absPath_take_entry loc e.name).symm

theorem smallFs_plainNames : smallFs.PlainNames where
  cwd _ h := absurd h (List.not_mem_nil _)
  listed _ _ h := smallFs_node_elim (motive := fun _ i => ∀ e ∈ listing i.readdir, '/' ∉ e.name)
    (by decide) (by decide) (by decide) (by decide) (by decide) h

/-! ### How a level ends -/

/-- A state the walk stops in: a status other than `0`, or a match found under
`SEARCH_STOPATFIRST`. -/
def Stopped (c : Search) (ds : DirSearch) : Prop := ds.status ≠ 0 ∨ FoundFirst c ds

/-- What a level that returns `0` leaves in `ds->path`, when it was given `p`: `p` itself, when it
skipped the directory or had no level left, or the canonical path of the directory it opened. -/
def LevelPath (c : Search) (p : List Char) (ds : DirSearch) : Prop :=
  ds.path = p ∨ ∃ loc i, c.fs.filpOpen p = .ok (loc, i) ∧ ds.path = absPath loc

/-- A matched entry keeps the path; it fails, or stops under `SEARCH_STOPATFIRST` with a match
counted, or goes on. -/
private theorem matchedEntry_lands (c : Search) (loc : Loc) (e : Dirent) {ds : DirSearch}
    (h : 0 ≤ ds.results) :
    Lands (fun ds' => ds'.path = ds.path ∧ 0 ≤ ds'.results)
      (fun ds' => Stopped c ds' ∧ 0 ≤ ds'.results) (matchedEntry c loc e ds) := by
  rcases matchedEntry_cases c loc e ds with
    ⟨ds', he, hs, -, -, hl⟩ | ⟨ds', st, -, -, -, hp, -, hl, he⟩
  · rw [he]
    exact ⟨.inl (Int.ne_of_lt hs), (DirSearch.counts_eq_of_failed hl).1 ▸ h⟩
  · have hr : ds'.results = ds.results + 1 := congrArg Ledger.results hl
    rw [he]
    split
    · exact ⟨.inr ⟨by omega, ‹_›⟩, by omega⟩
    · exact ⟨hp, by omega⟩

/-! ### Invariants that read the path -/

/-- A pair of state predicates kept by every elementary step of the walk, as in `Keeps`, where the
matched step need only keep them at the path the walk builds for the entry. -/
structure KeepsAt (c : Search) (P Q : DirSearch → Prop) : Prop where
  stop : ∀ ds, P ds → Q ds
  status : ∀ ds (s : Int), s ≤ 0 → P ds → P { ds with status := s }
  setPath : ∀ ds p, P ds → P (ds.setPath p)
  take : ∀ ds (n : Nat), P ds → P { ds with path := ds.path.take n }
  base : ∀ ds (b : Nat), ds.base = 0 → P ds → P { ds with base := b }
  opened : ∀ ds, P ds → P (ds.newId.2.acquire (.file ds.fresh))
  close : ∀ ds fp, Q ds → Q (ds.release (.file fp))
  matched : ∀ loc e ds, ds.path = absPath loc ++ '/' :: e.name → P ds →
    Lands P Q (matchedEntry c loc e ds)
  resume : ∀ ds, Q ds → ¬FoundFirst c ds → P { ds with status := 0 }
  found : ∀ ds, Q ds → Q { ds with status := 0 }

namespace KeepsAt

variable {c : Search} {P Q : DirSearch → Prop}

/-- What the walk needs of the search of the subdirectory `e` of the directory `loc`. -/
def ChildAt (c : Search) (P Q : DirSearch → Prop) (child : DirSearch → Int × DirSearch) (loc : Loc)
    (e : Dirent) : Prop :=
  ∀ ds, P ds → 0 ≤ ds.results → ds.path = absPath loc ++ '/' :: e.name →
    Q (child ds).2 ∧ 0 ≤ (child ds).2.results ∧
      ((child ds).1 = 0 ∨ (child ds).1 = (child ds).2.status) ∧
      ((child ds).1 = 0 → FoundFirst c (child ds).2 ∨
        (child ds).2.path.take (absPath loc).length = absPath loc)

/-- The states the walk goes on from at the directory whose canonical path is `D`. -/
def GoesOn (P : DirSearch → Prop) (D : List Char) (ds : DirSearch) : Prop :=
  P ds ∧ 0 ≤ ds.results ∧ ds.path = D

/-- The states the walk stops in. -/
def Stops (c : Search) (Q : DirSearch → Prop) (ds : DirSearch) : Prop :=
  Q ds ∧ 0 ≤ ds.results ∧ Stopped c ds

theorem descend (h : KeepsAt c P Q) {child : DirSearch → Int × DirSearch} {loc : Loc} {e : Dirent}
    (hchild : ChildAt c P Q child loc e) {ds : DirSearch} (hds : P ds) (hr : 0 ≤ ds.results)
    (hp : ds.path = absPath loc ++ '/' :: e.name) :
    Lands (fun ds => P ds ∧ 0 ≤ ds.results ∧ ds.path.take (absPath loc).length = absPath loc)
      (Stops c Q) (SearchSyscall.descend c child ds) := by
  obtain ⟨hq, hr', h0, hpath⟩ := hchild ds hds hr hp
  unfold SearchSyscall.descend
  generalize child ds = res at hq hr' h0 hpath ⊢
  obtain ⟨r, ds'⟩ := res
  dsimp only at hq hr' h0 hpath ⊢
  by_cases h0' : r = 0
  · subst h0'
    simp only [ne_eq, not_true_eq_false, if_false]
    split
    · exact ⟨h.found _ hq, hr', .inr ‹_›⟩
    · exact ⟨h.resume _ hq ‹_›, hr', (hpath rfl).resolve_left ‹_›⟩
  · obtain rfl : r = ds'.status := h0.resolve_left h0'
    simp only [ne_eq, h0', not_false_eq_true, if_true]
    exact ⟨hq, hr', .inl h0'⟩

/-- The entries of one chunk, from the directory's canonical path. -/
theorem searchEntries (h : KeepsAt c P Q) {child : DirSearch → Int × DirSearch} {loc : Loc} :
    ∀ (es : List Dirent) (ds : DirSearch),
      (∀ e ∈ es, e.isDir → e.name ≠ ['.'] → e.name ≠ ['.', '.'] → ChildAt c P Q child loc e) →
      GoesOn P (absPath loc) ds →
      Lands (GoesOn P (absPath loc)) (Stops c Q)
        (searchEntries c child loc (absPath loc).length es ds)
  | [], _, _, hds => hds
  | e :: es, ds, hc, ⟨hds, hr, hp⟩ => by
    have h1 : P ((ds.strcat ['/']).strcat e.name) := h.setPath _ _ (h.setPath _ _ hds)
    have hp1 : ((ds.strcat ['/']).strcat e.name).path = absPath loc ++ '/' :: e.name := by
      rw [path_strcat_name, hp]
    rw [SearchSyscall.searchEntries]
    refine Lands.bind (P := GoesOn P (absPath loc ++ '/' :: e.name)) ?_ fun ds2 h2 =>
      Lands.bind (P := fun ds => P ds ∧ 0 ≤ ds.results ∧
        ds.path.take (absPath loc).length = absPath loc) ?_ fun ds3 h3 =>
      searchEntries h es _ (fun e' he' => hc e' (.tail _ he')) ⟨h.take _ _ h3.1, h3.2.1, h3.2.2⟩
    · split
      · refine ((h.matched loc e _ hp1 h1).and (matchedEntry_lands c loc e hr)).mono
          (fun ds' h' => ⟨h'.1, h'.2.2, h'.2.1.trans hp1⟩) fun ds' h' => ⟨h'.1, h'.2.2, h'.2.1⟩
      · exact ⟨h1, hr, hp1⟩
    · split
      · rename_i hd
        obtain ⟨hdir, hn1, hn2, -⟩ := hd
        exact h.descend (hc e (.head _) hdir hn1 hn2) h2.1 h2.2.1 h2.2.2
      · exact ⟨h2.1, h2.2.1, by rw [h2.2.2, List.take_left]⟩

/-- The chunks of one directory. -/
theorem readEntries (h : KeepsAt c P Q) {child : DirSearch → Int × DirSearch} {loc : Loc} :
    ∀ (chunks : List (Except Errno (List Dirent))) (ds : DirSearch),
      (∀ e ∈ listing chunks, e.isDir → e.name ≠ ['.'] → e.name ≠ ['.', '.'] →
        ChildAt c P Q child loc e) →
      GoesOn P (absPath loc) ds →
      Lands (GoesOn P (absPath loc)) (Stops c Q) (readEntries c child loc chunks ds)
  | [], _, _, ⟨hds, hr, hp⟩ => ⟨h.status _ 0 (Int.le_refl 0) hds, hr, hp⟩
  | .error e :: _, _, _, ⟨hds, hr, _⟩ =>
    ⟨h.stop _ (h.status _ _ (Int.le_of_lt (Errno.neg_lt_zero e)) hds), hr,
      .inl (Int.ne_of_lt (Errno.neg_lt_zero e))⟩
  | .ok [] :: _, _, _, ⟨hds, hr, hp⟩ => ⟨h.status _ 0 (Int.le_refl 0) hds, hr, hp⟩
  | .ok (e :: es) :: rest, ds, hc, ⟨hds, hr, hp⟩ => by
    have hlen : ds.path.length = (absPath loc).length := by rw [hp]
    rw [SearchSyscall.readEntries, hlen]
    exact Lands.bind (h.searchEntries (e :: es) _ (fun e' he' => hc e' (List.mem_append_left _ he'))
        ⟨h.status _ 0 (Int.le_refl 0) hds, hr, hp⟩)
      fun ds' h' => readEntries h rest ds' (fun e' he' => hc e' (List.mem_append_right _ he')) h'

/-- An opened directory: the path becomes its canonical path, and a search that returns `0` and
does not stop leaves it there. -/
theorem searchOpened (h : KeepsAt c P Q) {child : DirSearch → Int × DirSearch} {loc : Loc}
    {i : Inode} (hi : i.search = none) (fp : Nat)
    (hc : ∀ e ∈ listing i.readdir, e.isDir → e.name ≠ ['.'] → e.name ≠ ['.', '.'] →
      ChildAt c P Q child loc e)
    {ds : DirSearch} (hds : P ds) (hr : 0 ≤ ds.results) :
    Q (searchOpened c child loc i fp ds).2 ∧ 0 ≤ (searchOpened c child loc i fp ds).2.results ∧
      ((searchOpened c child loc i fp ds).1 = 0 → FoundFirst c (searchOpened c child loc i fp ds).2 ∨
        (searchOpened c child loc i fp ds).2.path = absPath loc) := by
  unfold SearchSyscall.searchOpened
  rcases hcanon : abspath loc with e | canon
  · exact ⟨h.close _ _ (h.stop _ (h.status _ _ (Int.le_of_lt (Errno.neg_lt_zero e)) hds)), hr,
      fun h0 => absurd h0 (Int.ne_of_lt (Errno.neg_lt_zero e))⟩
  obtain rfl := eq_absPath_of_abspath hcanon
  have key : ∀ ds0, GoesOn P (absPath loc) ds0 →
      Q (closeDir fp (stateOf (SearchSyscall.readEntries c child loc i.readdir ds0))).2 ∧
      0 ≤ (closeDir fp (stateOf (SearchSyscall.readEntries c child loc i.readdir ds0))).2.results ∧
      ((closeDir fp (stateOf (SearchSyscall.readEntries c child loc i.readdir ds0))).1 = 0 →
        FoundFirst c (closeDir fp (stateOf (SearchSyscall.readEntries c child loc i.readdir ds0))).2 ∨
        (closeDir fp (stateOf (SearchSyscall.readEntries c child loc i.readdir ds0))).2.path =
          absPath loc) := by
    intro ds0 h0
    have hl := h.readEntries i.readdir ds0 hc h0
    generalize SearchSyscall.readEntries c child loc i.readdir ds0 = o at hl ⊢
    cases o with
    | ok ds' => exact ⟨h.close _ _ (h.stop _ hl.1), hl.2.1, fun _ => .inr hl.2.2⟩
    | error ds' =>
      exact ⟨h.close _ _ hl.1, hl.2.1, fun h0 => .inl (hl.2.2.resolve_left fun hs => hs h0)⟩
  dsimp only
  rw [hi]
  have hP := h.status _ 0 (Int.le_refl 0) (h.setPath _ (absPath loc) hds)
  refine key _ ?_
  split
  · exact ⟨h.base _ _ ‹_› hP, hr, rfl⟩
  · exact ⟨hP, hr, rfl⟩

variable (hN : c.fs.PlainNames) (hfs : c.fs.NoHooks)

include hN hfs

/-- Every invariant of the steps that reads the path only at matched entries is one of the whole
walk, on a tree whose directories list no name holding `/`, seen from a current directory named by
plain names; a level that returns `0` and does not stop leaves `LevelPath`. -/
theorem searchLevels (h : KeepsAt c P Q) :
    ∀ (k : Nat) (ds : DirSearch), P ds → 0 ≤ ds.results →
      Q (SearchSyscall.searchLevels c k ds).2 ∧ 0 ≤ (SearchSyscall.searchLevels c k ds).2.results ∧
        ((SearchSyscall.searchLevels c k ds).1 = 0 →
          FoundFirst c (SearchSyscall.searchLevels c k ds).2 ∨
            LevelPath c ds.path (SearchSyscall.searchLevels c k ds).2)
  | 0, _, hds, hr => ⟨h.stop _ hds, hr, fun _ => .inr (.inl rfl)⟩
  | k + 1, ds, hds, hr => by
    rw [searchLevels_succ]
    split
    · exact ⟨h.stop _ (h.status _ _ (Int.le_of_lt (Errno.neg_lt_zero _)) hds), hr,
        fun _ => .inr (.inl rfl)⟩
    rename_i loc i hopen
    have hi := c.fs.filpOpen_node hopen
    have hloc := Fs.resolve_plain hN.cwd (c.fs.filpOpen_ok hopen).1
    have hc : ∀ e ∈ listing i.readdir, e.isDir → e.name ≠ ['.'] → e.name ≠ ['.', '.'] →
        ChildAt c P Q (SearchSyscall.searchLevels c k) loc e := by
      intro e he _ hn1 hn2 ds' hds' hr' hp'
      obtain ⟨hq, hr'', hpath⟩ := searchLevels h k ds' hds' hr'
      refine ⟨hq, hr'', searchLevels_ret hfs k ds', fun h0 => (hpath h0).imp_right ?_⟩
      rintro (hp | ⟨loc', i', ho, hp⟩)
      · rw [hp, hp', List.take_left]
      · rw [hp'] at ho
        rw [hp]
        exact (List.prefix_iff_eq_take.mp (hN.entry_below hloc hi he hn1 hn2 ho)).symm
    obtain ⟨hq, hr', hpath⟩ := h.searchOpened (hfs loc i hi) ds.fresh hc
      (h.opened _ (h.status _ 0 (Int.le_refl 0) hds)) hr
    exact ⟨hq, hr', fun h0 => (hpath h0).imp_right fun hp => .inr ⟨loc, i, hopen, hp⟩⟩

/-- An invariant of the steps that reads the path only at matched entries, kept from one root to
the next, holds where the roots loop ends. -/
theorem walkRoots_lands (h : KeepsAt c P Q) (hstat : ∀ ds, Q ds → ds.status ≤ 0)
    (hroot : ∀ ds r, P ds → P { ds.setPath r with base := 0 })
    (hnext : ∀ ds, Q ds → ¬FoundFirst c ds → P ds) :
    ∀ (roots : List (List Char)) (ds : DirSearch), P ds → 0 ≤ ds.results →
      RootsLand Q (walkRoots c roots ds)
  | [], _, hds, _ => h.stop _ hds
  | r :: rs, ds, hds, hr => by
    obtain ⟨hq, hr', -⟩ := h.searchLevels hN hfs _ _ (hroot ds r hds) hr
    have hret := searchLevels_ret hfs (treeDepth - 0) { ds.setPath r with base := 0 }
    rw [walkRoots]
    change Q (searchDirectory c 0 _).2 at hq
    change 0 ≤ (searchDirectory c 0 _).2.results at hr'
    change (searchDirectory c 0 _).1 = 0 ∨ (searchDirectory c 0 _).1 = (searchDirectory c 0 _).2.status
      at hret
    generalize searchDirectory c 0 { ds.setPath r with base := 0 } = res at hq hr' hret ⊢
    obtain ⟨st, ds'⟩ := res
    dsimp only at hq hr' hret ⊢
    split
    · exact ⟨by have := hstat _ hq; omega, hq⟩
    · split
      · exact hq
      · exact walkRoots_lands h hstat hroot hnext rs ds' (hnext ds' hq ‹_›) hr'

end KeepsAt

/-! ### Below `/` -/

/-- Below `/`, the entry `/t/s/b`, whose path `/t/s/b` relative to the root is in the language of
`t/s/b`, is not reported: at depth 3 the walk matches `t/s/b`, the path without its leading `/`.
The same entry below `/t` is reported on `s/b`. -/
theorem search_root_slash_misses :
    ([['t'], ['s'], ['b']], "/t/s/b".toList) ∈ treeEntries smallFs treeDepth [] [] ∧
    inLang "/t/s/b".toList "t/s/b".toList = true ∧
    (search smallEnv (some "/".toList) (some "t/s/b".toList) 0 100).2.hits = [] ∧
    (search smallEnv (some "/t".toList) (some "s/b".toList) 0 100).2.hits = [[['t'], ['s'], ['b']]] := by
  decide

end SearchSyscall
