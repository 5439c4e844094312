import SearchSyscall.WalkLemmas

/-!
# What the walk reports

The walk's reports, stated without its state.  `listing` is what the `do … while` loop over
`vfs_readdir` reads of a directory, and `reported c k loc rel` the nodes the walk reports below the
directory `loc` with `k` levels left, in the order it meets them, where `rel` is the part of the
path after `ds->base`: an entry is reported when `match_pathname` gives `SEARCH_MATCH_SUCCESS` on
`rel/name`, and a subdirectory is searched when `descends` allows it.

* `searchLevels_hits`: on a tree in which every directory opens by its canonical path (`Fs.Opens`),
  a level below the first that returns `0` either goes on (`HitsOn`), having appended exactly
  `reported` to `hits` and counted it, with the path and `ds->base` as it found them, or, under
  `SEARCH_STOPATFIRST`, stops after the first of `reported` (`HitsFirst`).
* `searchLevels_root_reports`: the same for the first level, which sets `ds->base` to the length
  of the root's canonical path, so that `rel` starts empty; `searchLevels_root_hits` reads it
  without `SEARCH_STOPATFIRST`.

The steps compose through `Lands.hits_bind`.  All of this is for roots other than `/`: below `/`,
whose canonical path is one byte long, the canonical paths of the subdirectories lose their first
byte to `ds->base`.
-/

namespace SearchSyscall

open SearchMatched

/-! ### The reports -/

/-- The entries the walk reads of a directory: those of the successive `vfs_readdir` calls up to the
first that fails or lists nothing. -/
def listing : List (Except Errno (List Dirent)) → List Dirent
  | [] => []
  | .error _ :: _ => []
  | .ok [] :: _ => []
  | .ok (e :: es) :: rest => (e :: es) ++ listing rest

/-- The reports for the entries `es` of the directory `loc`, whose path after `ds->base` is `rel`:
an entry's own report when it matches, then the reports `child` gives for the subdirectory the walk
descends to. -/
def entryReports (c : Search) (child : Loc → List Char → List Loc) (loc : Loc) (rel : List Char) :
    List Dirent → List Loc
  | [] => []
  | e :: es =>
    let how := matchPathname (rel ++ '/' :: e.name) c.pattern
    ((if how = matchSuccess then [loc ++ [e.name]] else []) ++
      if descends c e how then child (loc ++ [e.name]) (rel ++ '/' :: e.name) else []) ++
    entryReports c child loc rel es

theorem entryReports_append (c : Search) (child : Loc → List Char → List Loc) (loc : Loc)
    (rel : List Char) (es es' : List Dirent) :
    entryReports c child loc rel (es ++ es') =
      entryReports c child loc rel es ++ entryReports c child loc rel es' := by
  induction es with
  | nil => rfl
  | cons e es ih =>
    show entryReports c child loc rel (e :: (es ++ es')) = _
    simp only [entryReports, ih, List.append_assoc]

/-- The nodes the walk reports below the directory `loc`, with `k` levels left. -/
def reported (c : Search) : Nat → Loc → List Char → List Loc
  | 0, _, _ => []
  | k + 1, loc, rel =>
    match c.fs.node loc with
    | none => []
    | some i => entryReports c (reported c k) loc rel (listing i.readdir)

/-- A tree in which every directory opens by its canonical path, and every `DT_DIR` entry other
than `.` and `..` that the walk reads names a directory. -/
structure Fs.Opens (fs : Fs) : Prop where
  opens : ∀ loc i, fs.node loc = some i → i.isDir → fs.filpOpen (absPath loc) = .ok (loc, i)
  subdir : ∀ loc i e, fs.node loc = some i → e ∈ listing i.readdir → e.isDir → e.name ≠ ['.'] →
    e.name ≠ ['.', '.'] → ∃ j, fs.node (loc ++ [e.name]) = some j ∧ j.isDir

/-! ### The walk against the reports -/

/-- The fields the reports are read from: the nodes reported so far, the path and `ds->base`. -/
def HitsAt (hits : List Loc) (path : List Char) (base : Nat) (ds : DirSearch) : Prop :=
  ds.hits = hits ∧ ds.path = path ∧ ds.base = base

/-- A step that ends the walk leaves a status other than `0`. -/
def Failed (ds : DirSearch) : Prop := ds.status ≠ 0

/-- A match found under `SEARCH_STOPATFIRST`: the test after a subdirectory's search (line 1394). -/
def FoundFirst (c : Search) (ds : DirSearch) : Prop :=
  0 < ds.results ∧ hasFlag c.flags searchStopatfirst

/-- Where a step that meets the reports `rep` goes on, from the reports `hits` and the count `n`:
`rep` reported and counted, the path and `ds->base` given back.  Under `SEARCH_STOPATFIRST` it
goes on only when it met none. -/
def HitsOn (c : Search) (hits : List Loc) (n : Int) (rep : List Loc) (path : List Char)
    (base : Nat) (ds : DirSearch) : Prop :=
  HitsAt (hits ++ rep) path base ds ∧ ds.results = n + rep.length ∧
    (hasFlag c.flags searchStopatfirst → rep = [])

/-- Where it stops under `SEARCH_STOPATFIRST`, after reporting the first of `rep`. -/
def HitsFirst (c : Search) (hits : List Loc) (n : Int) (rep : List Loc) (ds : DirSearch) : Prop :=
  ds.hits = hits ++ rep.take 1 ∧ ds.results = n + 1 ∧ rep ≠ [] ∧ hasFlag c.flags searchStopatfirst

/-- Where a step stops: a failure, or the first report under `SEARCH_STOPATFIRST`. -/
def HitsStop (c : Search) (hits : List Loc) (n : Int) (rep : List Loc) (ds : DirSearch) : Prop :=
  Failed ds ∨ HitsFirst c hits n rep ds

section Compose

variable {c : Search} {hits : List Loc} {n : Int} {r₁ r₂ : List Loc} {p : List Char} {b : Nat}
  {ds₁ ds₂ : DirSearch}

theorem HitsOn.nil (c : Search) (ds : DirSearch) : HitsOn c ds.hits ds.results [] ds.path ds.base ds :=
  ⟨⟨(List.append_nil _).symm, rfl, rfl⟩, by simp, fun _ => rfl⟩

/-- Under `SEARCH_STOPATFIRST` the count stays `0` while the walk goes on. -/
theorem HitsOn.results_zero (h : HitsOn c hits n r₁ p b ds₁)
    (hn : hasFlag c.flags searchStopatfirst → n = 0) :
    hasFlag c.flags searchStopatfirst → ds₁.results = 0 := fun hs => by
  rw [h.2.1, hn hs, h.2.2 hs]; rfl

theorem HitsOn.trans {p₁ : List Char} {b₁ : Nat} (h₁ : HitsOn c hits n r₁ p₁ b₁ ds₁)
    (h₂ : HitsOn c ds₁.hits ds₁.results r₂ p b ds₂) : HitsOn c hits n (r₁ ++ r₂) p b ds₂ := by
  refine ⟨⟨by rw [h₂.1.1, h₁.1.1, List.append_assoc], h₂.1.2⟩, ?_, fun hs => by
    rw [h₁.2.2 hs, h₂.2.2 hs]; rfl⟩
  rw [h₂.2.1, h₁.2.1, List.length_append]
  push_cast
  omega

theorem HitsStop.append (h : HitsStop c hits n r₁ ds₁) : HitsStop c hits n (r₁ ++ r₂) ds₁ := by
  rcases h with h | ⟨hh, hr, hne, hs⟩
  · exact .inl h
  · obtain ⟨x, xs, rfl⟩ := List.exists_cons_of_ne_nil hne
    exact .inr ⟨hh, hr, List.cons_ne_nil _ _, hs⟩

/-- A stop after a step that went on: under `SEARCH_STOPATFIRST` that step reported nothing. -/
theorem HitsOn.stop {p₁ : List Char} {b₁ : Nat} (h₁ : HitsOn c hits n r₁ p₁ b₁ ds₁)
    (h₂ : HitsStop c ds₁.hits ds₁.results r₂ ds₂) : HitsStop c hits n (r₁ ++ r₂) ds₂ := by
  rcases h₂ with h₂ | ⟨hh, hr, hne, hs⟩
  · exact .inl h₂
  · have h0 : r₁ = [] := h₁.2.2 hs
    subst h0
    refine .inr ⟨by rw [hh, h₁.1.1, List.append_nil, List.nil_append], by rw [hr, h₁.2.1]; simp,
      hne, hs⟩

/-- Two steps of the walk, the second run from where the first went on. -/
theorem Lands.hits_bind {q : List Char} {a : Nat} {x : Except DirSearch DirSearch}
    {f : DirSearch → Except DirSearch DirSearch}
    (hx : Lands (HitsOn c hits n r₁ q a) (HitsStop c hits n r₁) x)
    (hf : ∀ ds, HitsOn c hits n r₁ q a ds →
      Lands (HitsOn c ds.hits ds.results r₂ p b) (HitsStop c ds.hits ds.results r₂) (f ds)) :
    Lands (HitsOn c hits n (r₁ ++ r₂) p b) (HitsStop c hits n (r₁ ++ r₂)) (x >>= f) := by
  cases x with
  | error ds => exact HitsStop.append hx
  | ok ds => exact (hf ds hx).mono (fun _ h => hx.trans h) fun _ h => hx.stop h

end Compose

/-- What the walk needs of `child` at the entry `e` of the directory whose path is `D`: a search
of the subdirectory that returns `0` reports `rep` and gives back the path and `ds->base`, or stops
after the first of `rep` under `SEARCH_STOPATFIRST`. -/
def ChildHits (c : Search) (child : DirSearch → Int × DirSearch) (rep : Loc → List Char → List Loc)
    (loc : Loc) (D rel : List Char) (B : Nat) (e : Dirent) : Prop :=
  ∀ how, descends c e how → ∀ ds, ds.path = D ++ '/' :: e.name → ds.base = B →
    (hasFlag c.flags searchStopatfirst → ds.results = 0) → (child ds).1 = 0 →
      HitsOn c ds.hits ds.results (rep (loc ++ [e.name]) (rel ++ '/' :: e.name)) ds.path B
          (child ds).2 ∨
        HitsFirst c ds.hits ds.results (rep (loc ++ [e.name]) (rel ++ '/' :: e.name)) (child ds).2

theorem path_strcat_name (ds : DirSearch) (n : List Char) :
    ((ds.strcat ['/']).strcat n).path = ds.path ++ '/' :: n := by
  simp

section Refines

variable {c : Search}

private theorem matchedEntry_hits (loc : Loc) (e : Dirent) (ds : DirSearch) :
    Lands (HitsOn c ds.hits ds.results [loc ++ [e.name]] ds.path ds.base)
      (HitsStop c ds.hits ds.results [loc ++ [e.name]]) (matchedEntry c loc e ds) := by
  rcases matchedEntry_cases c loc e ds with
    ⟨ds', he, hs, -⟩ | ⟨ds', st, -, -, -, hp, hb, hl, he⟩
  · rw [he]; exact .inl (Int.ne_of_lt hs)
  have hh : ds'.hits = ds.hits ++ [loc ++ [e.name]] := congrArg Ledger.hits hl
  have hr : ds'.results = ds.results + 1 := congrArg Ledger.results hl
  rw [he]
  by_cases hstop : hasFlag c.flags searchStopatfirst
  · rw [if_pos hstop]
    exact .inr ⟨hh, hr, List.cons_ne_nil _ _, hstop⟩
  · rw [if_neg hstop]
    exact ⟨⟨hh, hp, hb⟩, by rw [hr]; rfl, fun h => absurd h hstop⟩

private theorem descend_hits {child : DirSearch → Int × DirSearch} {ds : DirSearch} {rep : List Loc}
    {p : List Char} {b : Nat} (hn : hasFlag c.flags searchStopatfirst → ds.results = 0)
    (hchild : (child ds).1 = 0 →
      HitsOn c ds.hits ds.results rep p b (child ds).2 ∨ HitsFirst c ds.hits ds.results rep (child ds).2) :
    Lands (HitsOn c ds.hits ds.results rep p b) (HitsStop c ds.hits ds.results rep)
      (descend c child ds) := by
  unfold descend
  generalize child ds = res at hchild ⊢
  obtain ⟨r, ds'⟩ := res
  by_cases hr : r = 0
  · subst hr
    simp only [ne_eq, not_true_eq_false, if_false]
    split
    · rename_i hfound
      refine (hchild rfl).imp_left fun h => absurd hfound.1 ?_
      rw [h.2.1, hn hfound.2, h.2.2 hfound.2]
      decide
    · rename_i hgo
      refine (hchild rfl).resolve_right fun h => hgo ⟨?_, h.2.2.2⟩
      rw [h.2.1, hn h.2.2.2]
      decide
  · simp only [ne_eq, hr, not_false_eq_true, if_true]
    exact .inl hr

/-- The entries of one chunk. -/
theorem searchEntries_hits {child : DirSearch → Int × DirSearch} {rep : Loc → List Char → List Loc}
    {loc : Loc} {D rel : List Char} {B : Nat} (hB : B ≤ D.length) (hrel : D.drop B = rel) :
    ∀ (es : List Dirent) (ds : DirSearch), ds.path = D → ds.base = B →
      (hasFlag c.flags searchStopatfirst → ds.results = 0) →
      (∀ e ∈ es, ChildHits c child rep loc D rel B e) →
      Lands (HitsOn c ds.hits ds.results (entryReports c rep loc rel es) D B)
        (HitsStop c ds.hits ds.results (entryReports c rep loc rel es))
        (searchEntries c child loc D.length es ds)
  | [], ds, hp, hb, _, _ => hp ▸ hb ▸ HitsOn.nil c ds
  | e :: es, ds, hp, hb, hn, hc => by
    have hp1 : ((ds.strcat ['/']).strcat e.name).path = D ++ '/' :: e.name := by
      rw [path_strcat_name, hp]
    have hb1 : ((ds.strcat ['/']).strcat e.name).base = B := hb
    have hhow : matchPathname (((ds.strcat ['/']).strcat e.name).path.drop
        ((ds.strcat ['/']).strcat e.name).base) c.pattern =
          matchPathname (rel ++ '/' :: e.name) c.pattern := by
      rw [hp1, hb1, List.drop_append_of_le_length hB, hrel]
    rw [searchEntries, hhow, entryReports, List.append_assoc]
    generalize matchPathname (rel ++ '/' :: e.name) c.pattern = how
    refine Lands.hits_bind (q := D ++ '/' :: e.name) (a := B) ?_ fun ds2 h2 =>
      Lands.hits_bind (q := D ++ '/' :: e.name) (a := B) ?_ fun ds3 h3 => ?_
    · by_cases hm : how = matchSuccess
      · simp only [if_pos hm]
        exact (matchedEntry_hits loc e _).mono (fun _ h => hp1 ▸ hb1 ▸ h) fun _ h => h
      · simp only [if_neg hm]
        exact hp1 ▸ hb1 ▸ HitsOn.nil c _
    · have hn2 := h2.results_zero hn
      by_cases hd : descends c e how
      · simp only [if_pos hd]
        exact descend_hits hn2 fun h0 => h2.1.2.1 ▸ hc e (.head _) _ hd ds2 h2.1.2.1 h2.1.2.2 hn2 h0
      · simp only [if_neg hd]
        exact h2.1.2.1 ▸ h2.1.2.2 ▸ HitsOn.nil c ds2
    · exact searchEntries_hits hB hrel es { ds3 with path := ds3.path.take D.length }
        (by show ds3.path.take D.length = D; rw [h3.1.2.1, List.take_left]) h3.1.2.2
        (h3.results_zero (h2.results_zero hn)) fun e' he' => hc e' (.tail _ he')

/-- The chunks of one directory. -/
theorem readEntries_hits {child : DirSearch → Int × DirSearch} {rep : Loc → List Char → List Loc}
    {loc : Loc} {D rel : List Char} {B : Nat} (hB : B ≤ D.length) (hrel : D.drop B = rel) :
    ∀ (chunks : List (Except Errno (List Dirent))) (ds : DirSearch), ds.path = D → ds.base = B →
      (hasFlag c.flags searchStopatfirst → ds.results = 0) →
      (∀ e ∈ listing chunks, ChildHits c child rep loc D rel B e) →
      Lands (fun ds' => HitsOn c ds.hits ds.results (entryReports c rep loc rel (listing chunks)) D B ds' ∧
          ds'.status = 0) (HitsStop c ds.hits ds.results (entryReports c rep loc rel (listing chunks)))
        (readEntries c child loc chunks ds)
  | [], ds, hp, hb, _, _ => ⟨hp ▸ hb ▸ HitsOn.nil c ds, rfl⟩
  | .error e :: _, ds, _, _, _, _ => .inl (Int.ne_of_lt (Errno.neg_lt_zero e))
  | .ok [] :: _, ds, hp, hb, _, _ => ⟨hp ▸ hb ▸ HitsOn.nil c ds, rfl⟩
  | .ok (e :: es) :: rest, ds, hp, hb, hn, hc => by
    have hlen : ds.path.length = D.length := by rw [hp]
    rw [readEntries, hlen, listing, entryReports_append]
    refine Lands.bind ((searchEntries_hits hB hrel (e :: es) { ds with status := 0 } hp hb hn
      fun e' he' => hc e' (List.mem_append_left _ he')).mono (fun _ h => h)
        fun _ h => HitsStop.append h) fun ds' h => ?_
    exact (readEntries_hits hB hrel rest ds' h.1.2.1 h.1.2.2 (h.results_zero hn)
      fun e' he' => hc e' (List.mem_append_right _ he')).mono (fun _ h' => ⟨h.trans h'.1, h'.2⟩)
        fun _ h' => h.stop h'

/-- An opened directory: the path becomes its canonical path, `ds->base` is set on the first level,
and the entries are read. -/
theorem searchOpened_hits {child : DirSearch → Int × DirSearch} {rep : Loc → List Char → List Loc}
    {loc : Loc} {i : Inode} (hi : i.search = none) (fp : Nat) {ds : DirSearch} {B : Nat}
    (hB : B ≤ (absPath loc).length) (hb0 : ds.base = 0 → B = (absPath loc).length)
    (hb : ds.base ≠ 0 → ds.base = B) (hn : hasFlag c.flags searchStopatfirst → ds.results = 0)
    (hc : ∀ e ∈ listing i.readdir,
      ChildHits c child rep loc (absPath loc) ((absPath loc).drop B) B e)
    (h0 : (searchOpened c child loc i fp ds).1 = 0) :
    HitsOn c ds.hits ds.results (entryReports c rep loc ((absPath loc).drop B) (listing i.readdir))
        (absPath loc) B (searchOpened c child loc i fp ds).2 ∨
      HitsFirst c ds.hits ds.results
        (entryReports c rep loc ((absPath loc).drop B) (listing i.readdir))
        (searchOpened c child loc i fp ds).2 := by
  unfold searchOpened at h0 ⊢
  rcases hcanon : abspath loc with e | canon
  · rw [hcanon] at h0
    exact absurd h0 (Int.ne_of_lt (Errno.neg_lt_zero _))
  rw [hcanon] at h0
  obtain rfl := eq_absPath_of_abspath hcanon
  have key : ∀ ds3 : DirSearch, ds3.path = absPath loc → ds3.base = B → ds3.hits = ds.hits →
      ds3.results = ds.results →
      (closeDir fp (stateOf (readEntries c child loc i.readdir ds3))).1 = 0 →
      HitsOn c ds.hits ds.results
          (entryReports c rep loc ((absPath loc).drop B) (listing i.readdir)) (absPath loc) B
          (closeDir fp (stateOf (readEntries c child loc i.readdir ds3))).2 ∨
        HitsFirst c ds.hits ds.results
          (entryReports c rep loc ((absPath loc).drop B) (listing i.readdir))
          (closeDir fp (stateOf (readEntries c child loc i.readdir ds3))).2 := by
    intro ds3 hp hb hh hr h0
    have hl := readEntries_hits hB rfl i.readdir ds3 hp hb (hr ▸ hn) hc
    rw [hh, hr] at hl
    generalize readEntries c child loc i.readdir ds3 = o at hl h0 ⊢
    cases o with
    | error ds' => exact .inr (hl.resolve_left fun hf => hf h0)
    | ok ds' => exact .inl hl.1
  dsimp only at h0 ⊢
  rw [hi] at h0 ⊢
  refine key _ (by split <;> rfl) ?_ (by split <;> rfl) (by split <;> rfl) h0
  split
  · exact (hb0 ‹_›).symm
  · exact hb ‹_›

variable (hO : c.fs.Opens) (hfs : c.fs.NoHooks)

include hO hfs

/-- A level below the first, on a directory whose canonical path is already in `ds->path`. -/
theorem searchLevels_hits :
    ∀ (k : Nat) (ds : DirSearch) (loc : Loc) (j : Inode), loc ≠ [] → c.fs.node loc = some j →
      j.isDir → ds.path = absPath loc → 0 < ds.base → ds.base ≤ (absPath loc).length →
      (hasFlag c.flags searchStopatfirst → ds.results = 0) → (searchLevels c k ds).1 = 0 →
      HitsOn c ds.hits ds.results (reported c k loc ((absPath loc).drop ds.base)) ds.path ds.base
          (searchLevels c k ds).2 ∨
        HitsFirst c ds.hits ds.results (reported c k loc ((absPath loc).drop ds.base))
          (searchLevels c k ds).2
  | 0, ds, _, _, _, _, _, _, _, _, _, _ => .inl (HitsOn.nil c ds)
  | k + 1, ds, loc, j, hloc, hj, hdir, hp, hb0, hb, hn, h0 => by
    rw [searchLevels_succ, hp, hO.opens loc j hj hdir] at h0 ⊢
    dsimp only at h0 ⊢
    have hrep : reported c (k + 1) loc ((absPath loc).drop ds.base) = entryReports c
        (reported c k) loc ((absPath loc).drop ds.base) (listing j.readdir) := by
      simp only [reported, hj]
    rw [hrep]
    refine searchOpened_hits (hfs loc j hj) ds.fresh hb ?_ ?_ hn ?_ h0
    · exact fun h => absurd h (Nat.pos_iff_ne_zero.mp hb0)
    · exact fun _ => rfl
    intro e he how hd ds' hp' hb' hn' h0'
    obtain ⟨hdir', hn1, hn2, -⟩ := hd
    obtain ⟨j', hj', hdir''⟩ := hO.subdir loc j e hj he hdir' hn1 hn2
    have habs : absPath (loc ++ [e.name]) = absPath loc ++ '/' :: e.name :=
      absPath_append_single hloc _
    have ih := searchLevels_hits k ds' (loc ++ [e.name]) j' (by simp) hj' hdir''
      (hp'.trans habs.symm) (by omega) (by rw [hb', habs, List.length_append]; omega) hn' h0'
    rwa [hb', habs, List.drop_append_of_le_length hb] at ih

/-- The first level, from a root that opens as a directory other than `/`: `ds->base` becomes the
length of the root's canonical path. -/
theorem searchLevels_root_reports (k : Nat) (ds : DirSearch) {loc : Loc} {i : Inode}
    (hb : ds.base = 0) (hopen : c.fs.filpOpen ds.path = .ok (loc, i)) (hloc : loc ≠ [])
    (hn : hasFlag c.flags searchStopatfirst → ds.results = 0)
    (h0 : (searchLevels c (k + 1) ds).1 = 0) :
    HitsOn c ds.hits ds.results (reported c (k + 1) loc []) (absPath loc) (absPath loc).length
        (searchLevels c (k + 1) ds).2 ∨
      HitsFirst c ds.hits ds.results (reported c (k + 1) loc []) (searchLevels c (k + 1) ds).2 := by
  rw [searchLevels_succ, hopen] at h0 ⊢
  dsimp only at h0 ⊢
  have hi := c.fs.filpOpen_node hopen
  have hrep : reported c (k + 1) loc [] = entryReports c (reported c k) loc
      ((absPath loc).drop (absPath loc).length) (listing i.readdir) := by
    simp [reported, hi]
  have hpos : 0 < (absPath loc).length := List.length_pos.mpr (absPath_ne_nil loc)
  rw [hrep]
  refine searchOpened_hits (hfs loc i hi) ds.fresh (Nat.le_refl _) ?_ ?_ hn ?_ h0
  · exact fun _ => rfl
  · exact fun h => absurd hb h
  intro e he how hd ds' hp' hb' hn' h0'
  obtain ⟨hdir', hn1, hn2, -⟩ := hd
  obtain ⟨j', hj', hdir''⟩ := hO.subdir loc i e hi he hdir' hn1 hn2
  have habs : absPath (loc ++ [e.name]) = absPath loc ++ '/' :: e.name :=
    absPath_append_single hloc _
  have ih := searchLevels_hits hO hfs k ds' (loc ++ [e.name]) j' (by simp) hj' hdir''
    (hp'.trans habs.symm) (by omega) (by rw [hb', habs]; simp) hn' h0'
  rwa [hb', habs, List.drop_append_of_le_length (Nat.le_refl _)] at ih

end Refines

/-- Without `SEARCH_STOPATFIRST`, the first level from a root that opens as a directory other than
`/` reports exactly `reported` when it returns `0`. -/
theorem searchLevels_root_hits {c : Search} (hstop : hasFlag c.flags searchStopatfirst = false)
    (hO : c.fs.Opens) (hfs : c.fs.NoHooks) (k : Nat) (ds : DirSearch) {loc : Loc} {i : Inode}
    (hb : ds.base = 0) (hopen : c.fs.filpOpen ds.path = .ok (loc, i)) (hloc : loc ≠ [])
    (h0 : (searchLevels c (k + 1) ds).1 = 0) :
    (searchLevels c (k + 1) ds).2.hits = ds.hits ++ reported c (k + 1) loc [] := by
  rcases searchLevels_root_reports hO hfs k ds hb hopen hloc (by simp [hstop]) h0 with h | h
  · exact h.1.1
  · exact absurd h.2.2.2 (by simp [hstop])

end SearchSyscall
