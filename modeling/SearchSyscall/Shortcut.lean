import SearchSyscall.Traversal
import SearchSyscall.Alternation
import SearchSyscall.PathWalk

/-!
# The literal shortcut against the walk

For a pattern `/c1/…/ck` without wildcards, `search` takes the literal shortcut (lines 1481-1517):
`kern_path` on each root, then `vfs_path_lookup` of `c1/…/ck` below it (`literalReport`).  Run on
the same roots and pattern, the walk matches the pattern after every `/` of the path, not only after
the root's (the defect the comment at line 1098 names), and descends wherever that gives `PARTIAL`.

* `mem_reported_names`: on a tree whose directories list every child, the walk meets the node the
  names lead to from the root, when the lookup passes through searchable directories.
* `reported_lookedUp`: a node the walk reports and finds is that node, on a tree in which no node
  lies deeper below the root at a path that ends in `c1/…/ck` (`matchPathname_names`); and the
  walk reports no node twice when no directory lists a name twice (`reported_nodup`).
* `searchDirectory_literalReport`: so from a root other than `/`, a walk that returns `0` reports
  what the shortcut reports, and the two roots loops go root by root in step, with or without
  `SEARCH_STOPATFIRST` (`walk_literal_hits`).
* `literal_count_eq_walk`: when both succeed they report the same nodes and count the same.
* `literal_walk_counterexamples`: a node deeper below the root, the root `/`, or a file where the
  pattern needs a directory each part them.
-/

namespace SearchSyscall

open SearchMatched

/-! ### Trees and lookups -/

/-- A tree whose directories list every child, with its `DT_DIR` flag. -/
def Fs.Lists (fs : Fs) : Prop :=
  ∀ loc i n j, fs.node loc = some i → fs.node (loc ++ [n]) = some j →
    ∃ e ∈ listing i.readdir, e.name = n ∧ e.isDir = j.isDir

/-- A tree lists every child when its parent lists every node below the root. -/
theorem Fs.lists_of_parent {fs : Fs}
    (h : ∀ l j, fs.node l = some j → l ≠ [] → ∃ i, fs.node l.dropLast = some i ∧
      ∃ e ∈ listing i.readdir, some e.name = l.getLast? ∧ e.isDir = j.isDir) : fs.Lists := by
  intro loc i n j hi hj
  obtain ⟨i', hi', e, he, hn, hd⟩ :=
    h _ _ hj (List.append_ne_nil_of_right_ne_nil loc (List.cons_ne_nil n []))
  rw [List.dropLast_concat, hi, Option.some.injEq] at hi'
  rw [List.getLast?_concat, Option.some.injEq] at hn
  exact ⟨e, hi' ▸ he, hn, hd⟩

/-- On a tree in which every directory opens by its canonical path, a path that resolves to a
directory opens it. -/
private theorem Fs.Opens.filpOpen_dir {fs : Fs} (hO : fs.Opens) {s : List Char} {loc : Loc} {i : Inode}
    (hr : fs.resolve s = .ok loc) (hi : fs.node loc = some i) (hdir : i.isDir) :
    fs.filpOpen s = .ok (loc, i) := by
  have ho := hO.opens loc i hi hdir
  rw [fs.filpOpen_congr (hr.trans (fs.filpOpen_ok ho).1.symm), ho]

/-- On such a tree, the directory a lookup of names starts from, named by plain names other than
`/`, is reached from `/` through searchable directories. -/
private theorem Fs.Opens.chain_root {fs : Fs} (hO : fs.Opens) {l : Loc} (hl : PlainLoc l) (hne : l ≠ [])
    {n : List Char} {ns : List (List Char)} (h : fs.Chain l (n :: ns)) :
    fs.Chain [] (l ++ n :: ns) := by
  obtain ⟨⟨i, hi, hdir, -⟩, -⟩ := id h
  have hch := (Fs.resolve_absPath hl hne (fs.filpOpen_ok (hO.opens l i hi hdir)).1).2
  exact (Fs.chain_append [] l (n :: ns)).mpr ⟨hch, by rwa [List.nil_append]⟩

/-! ### The walk on a pattern without wildcards -/

/-- A path of plain bytes against a pattern that starts with it. -/
theorem matchPathnameAt_append_plain : ∀ (s rest : List Char),
    (∀ ch ∈ s, ch ≠ '*' ∧ ch ≠ '?' ∧ ch ≠ '[' ∧ ch ≠ '|') →
      matchPathnameAt 0 s (s ++ rest) = matchPathnameAt 0 [] rest
  | [], _, _ => rfl
  | ch :: s, rest, h => by
    obtain ⟨h1, h2, h3, -⟩ := h ch (.head _)
    rw [List.cons_append, matchPathnameAt_literal (by decide) h1 h2 h3]
    simp only [List.cons_ne_nil, and_false, if_false, if_true]
    exact matchPathnameAt_append_plain s rest fun c hc => h c (.tail _ hc)

/-- An anchored pattern of one alternative is first tried on the whole path. -/
private theorem matchPathname_anchored {s pat : List Char} (hbar : '|' ∉ pat)
    (hpat : pat.head? = some '/') (hne : matchPathnameAt 0 s pat ≠ matchFailure) :
    matchPathname s pat = matchPathnameAt 0 s pat := by
  rw [matchPathname, barPointers_of_not_mem hbar]
  simp only [slashPointers, firstMatch, matchAlternative, hpat, if_true,
    SearchMatched.orElse_failure]
  exact SearchMatched.orElse_of_ne hne _

/-- A pattern without `*`, `?` and `[` matches only itself. -/
private theorem InGlob.eq_of_plain {s a : List Char} (h : InGlob s a)
    (ha : ∀ ch ∈ a, ch ≠ '*' ∧ ch ≠ '?' ∧ ch ≠ '[') : s = a := by
  unfold InGlob at h
  induction h with
  | done h => exact h.symm
  | star _ _ _ => exact absurd rfl (ha '*' (.head _)).1
  | qmarkZero _ _ => exact absurd rfl (ha '?' (.head _)).2.1
  | qmarkOne _ _ _ => exact absurd rfl (ha '?' (.head _)).2.1
  | literal _ _ _ _ ih => exact congrArg _ (ih fun ch hch => ha ch (.tail _ hch))

section Names

variable {c : Search} {names : List (List Char)}
  (hpat : c.pattern = names.flatMap ('/' :: ·))
  (hplain : ∀ n ∈ names, n ≠ [] ∧ n ≠ ['.'] ∧ n ≠ ['.', '.'] ∧
    ∀ ch ∈ n, ch ≠ '/' ∧ ch ≠ '*' ∧ ch ≠ '?' ∧ ch ≠ '[' ∧ ch ≠ '|')

include hplain

theorem plain_slashJoin (pre : List (List Char)) (hpre : ∀ n ∈ pre, n ∈ names) :
    ∀ ch ∈ pre.flatMap ('/' :: ·), ch ≠ '*' ∧ ch ≠ '?' ∧ ch ≠ '[' ∧ ch ≠ '|' := by
  intro ch hch
  simp only [List.mem_flatMap, List.mem_cons] at hch
  obtain ⟨n, hn, rfl | hch⟩ := hch
  · decide
  · obtain ⟨-, -, -, h⟩ := hplain n (hpre n hn)
    exact (h ch hch).2

/-- The names are plain names of the path walk. -/
theorem plainName_of_names {n : List Char} (hn : n ∈ names) : PlainName n :=
  ⟨(hplain n hn).1, (hplain n hn).2.1, (hplain n hn).2.2.1,
    fun h => ((hplain n hn).2.2.2 '/' h).1 rfl⟩

include hpat

theorem bar_not_mem_pattern : '|' ∉ c.pattern := fun hb =>
  (plain_slashJoin hplain names (fun _ hn => hn) '|' (hpat ▸ hb)).2.2.2 rfl

/-- The pattern, tried on the path of the names `pre` it starts with, gives `SUCCESS` when they are
all its names and `PARTIAL` when more follow. -/
private theorem matchPathname_prefix (pre post : List (List Char)) (h : pre ++ post = names)
    (hpre : pre ≠ []) :
    matchPathname (pre.flatMap ('/' :: ·)) c.pattern =
      if post = [] then matchSuccess else matchPartial := by
  have hsub : ∀ n ∈ pre, n ∈ names := fun n hn => h ▸ List.mem_append_left _ hn
  have hpat' : c.pattern = pre.flatMap ('/' :: ·) ++ post.flatMap ('/' :: ·) := by
    rw [hpat, ← h, List.flatMap_append]
  have hm : matchPathnameAt 0 (pre.flatMap ('/' :: ·)) c.pattern =
      if post = [] then matchSuccess else matchPartial := by
    rw [hpat', matchPathnameAt_append_plain _ _ (plain_slashJoin hplain pre hsub)]
    cases post with
    | nil => rfl
    | cons n post =>
      rw [List.flatMap_cons, List.cons_append, matchPathnameAt_literal (by decide) (by decide)
        (by decide) (by decide)]
      rfl
  have hhead : c.pattern.head? = some '/' := by
    obtain ⟨n, ns, rfl⟩ := List.exists_cons_of_ne_nil hpre
    rw [hpat']; rfl
  rw [matchPathname_anchored (bar_not_mem_pattern hpat hplain) hhead
    (by rw [hm]; split <;> decide), hm]

/-- On a path of names without `/`, the pattern succeeds only where the path ends in `c1/…/ck`:
`match_pathname` tries it after every `/`. -/
theorem matchPathname_names (hk : names ≠ []) {u : List (List Char)} (hu : u ≠ [])
    (hu' : ∀ m ∈ u, '/' ∉ m) (h : matchPathname (u.flatMap ('/' :: ·)) c.pattern = matchSuccess) :
    ∃ w, u = w ++ names := by
  obtain ⟨n, ns, rfl⟩ := List.exists_cons_of_ne_nil hk
  obtain ⟨m, ms, rfl⟩ := List.exists_cons_of_ne_nil hu
  have hbar := bar_not_mem_pattern hpat hplain
  have hhead : c.pattern.head? = some '/' := by rw [hpat]; rfl
  have hs : ((m :: ms).flatMap ('/' :: ·)).head? = some '/' := rfl
  have hf : ∀ v, firstMatch (matchAlternative v) [c.pattern] = matchPathnameAt 0 v c.pattern :=
    fun v => by simp only [firstMatch, matchAlternative, hhead, if_true, SearchMatched.orElse_failure]
  rw [matchPathname, barPointers_of_not_mem hbar, slashPointers_eq_map hs, firstMatch_map] at h
  simp only [hf] at h
  obtain ⟨v, hv, e⟩ := (firstMatch_cases _ _).resolve_left fun e => by rw [e] at h; cases h
  have hw : 0 + wildcardCount c.pattern < 8 := by
    rw [wildcardCount, List.countP_eq_zero.mpr]
    · decide
    · intro ch hch
      obtain ⟨h1, h2, -⟩ := plain_slashJoin hplain _ (fun _ hn => hn) ch (hpat ▸ hch)
      simp [h1, h2]
  have hglob := (matchPathnameAt_spec c.pattern 0 ('/' :: v) hbar hw).success_iff.mp (e.trans h)
  have hv' : '/' :: v = c.pattern := hglob.eq_of_plain fun ch hch =>
    have h := plain_slashJoin hplain _ (fun _ hn => hn) ch (hpat ▸ hch)
    ⟨h.1, h.2.1, h.2.2.1⟩
  rw [hpat, List.flatMap_cons, List.cons_append, List.cons.injEq] at hv'
  obtain ⟨x, hx⟩ := mem_boundarySuffixes.mp hv
  have hslash : ∀ k ∈ n :: ns, '/' ∉ k := fun k hk => (plainName_of_names hplain hk).2.2.2
  have hsplit : [] :: m :: ms = x.splitOn '/' ++ n :: ns := by
    rw [← splitOn_slashJoin n ns (hslash n (.head _)) fun k hk => hslash k (.tail _ hk), ← hv'.2,
      ← splitOn_append_slash, ← hx]
    exact (splitOn_slashJoin [] (m :: ms) (List.not_mem_nil _) hu').symm
  obtain ⟨a, l, hl⟩ := List.exists_cons_of_ne_nil (List.splitOnP_ne_nil (· == '/') x)
  rw [show x.splitOn '/' = a :: l from hl, List.cons_append, List.cons.injEq] at hsplit
  exact ⟨l, hsplit.2⟩

end Names

/-! ### What the walk reports -/

section Reports

variable {c : Search}

theorem mem_entryReports_iff {child : Loc → List Char → List Loc} {loc : Loc} {rel : List Char}
    {x : Loc} : ∀ {es : List Dirent}, x ∈ entryReports c child loc rel es ↔ ∃ e ∈ es,
      matchPathname (rel ++ '/' :: e.name) c.pattern = matchSuccess ∧ x = loc ++ [e.name] ∨
        descends c e (matchPathname (rel ++ '/' :: e.name) c.pattern) ∧
          x ∈ child (loc ++ [e.name]) (rel ++ '/' :: e.name)
  | [] => by simp [entryReports]
  | e :: es => by
    simp only [entryReports, List.mem_append, List.mem_ite_nil_right, List.mem_singleton,
      mem_entryReports_iff, List.mem_cons, List.not_mem_nil, or_false, or_and_right, exists_or,
      exists_eq_left, or_assoc]

/-- On a tree whose directories list every child, the walk meets the node the names lead to from
the root, when the lookup passes through searchable directories. -/
theorem mem_reported_names {names : List (List Char)} (hpat : c.pattern = names.flatMap ('/' :: ·))
    (hplain : ∀ n ∈ names, n ≠ [] ∧ n ≠ ['.'] ∧ n ≠ ['.', '.'] ∧
      ∀ ch ∈ n, ch ≠ '/' ∧ ch ≠ '*' ∧ ch ≠ '?' ∧ ch ≠ '[' ∧ ch ≠ '|')
    (hL : c.fs.Lists) (loc : Loc) :
    ∀ (post pre : List (List Char)) (m : Nat), pre ++ post = names → post ≠ [] →
      post.length ≤ m → c.fs.Chain (loc ++ pre) post →
      loc ++ names ∈ reported c m (loc ++ pre) (pre.flatMap ('/' :: ·))
  | [], _, _, _, h, _, _ => absurd rfl h
  | n :: rest, pre, m, hnames, _, hm, hch => by
    obtain ⟨m, rfl⟩ : ∃ m', m = m' + 1 := ⟨m - 1, by simp at hm; omega⟩
    obtain ⟨⟨i, hi, -⟩, ⟨j, hj⟩, hch'⟩ := hch
    obtain ⟨e, he, rfl, hed⟩ := hL _ i _ j hi hj
    have hrep : reported c (m + 1) (loc ++ pre) (pre.flatMap ('/' :: ·)) = entryReports c
        (reported c m) (loc ++ pre) (pre.flatMap ('/' :: ·)) (listing i.readdir) := by
      simp only [reported, hi]
    have hrel : pre.flatMap ('/' :: ·) ++ '/' :: e.name = (pre ++ [e.name]).flatMap ('/' :: ·) := by
      simp
    have hn := hplain e.name (hnames ▸ List.mem_append_right _ (.head _))
    have hmatch := matchPathname_prefix hpat hplain (pre ++ [e.name]) rest (by simpa using hnames)
      (by simp)
    rw [hrep, mem_entryReports_iff]
    refine ⟨e, he, ?_⟩
    rw [hrel, hmatch]
    cases rest with
    | nil => exact .inl ⟨if_pos rfl, by simp [← hnames]⟩
    | cons n' rest =>
      obtain ⟨⟨i', hi', hdir, -⟩, -⟩ := id hch'
      have hj' : j = i' := Option.some.inj (hj.symm.trans hi')
      refine .inr ⟨⟨hed ▸ hj' ▸ hdir, hn.2.1, hn.2.2.1, .inl (if_neg (List.cons_ne_nil _ _))⟩, ?_⟩
      rw [List.append_assoc loc pre [e.name]]
      exact mem_reported_names hpat hplain hL loc (n' :: rest) (pre ++ [e.name]) m
        (by simpa using hnames) (List.cons_ne_nil _ _) (by simp at hm ⊢; omega)
        (by rw [← List.append_assoc]; exact hch')

variable (hlisted : ∀ loc i, c.fs.node loc = some i → ∀ e ∈ listing i.readdir, '/' ∉ e.name)

include hlisted

/-- A node the walk reports below `loc` lies below an entry of it, named by entries without `/`,
at a path whose match succeeded. -/
theorem mem_reported_inv : ∀ (k : Nat) (loc : Loc) (rel : List Char) {x : Loc},
    x ∈ reported c k loc rel → ∃ n u, x = loc ++ n :: u ∧
      (∃ i, c.fs.node loc = some i ∧ ∃ e ∈ listing i.readdir, e.name = n) ∧
      (∀ m ∈ n :: u, '/' ∉ m) ∧
      matchPathname (rel ++ (n :: u).flatMap ('/' :: ·)) c.pattern = matchSuccess
  | 0, _, _, _, h => absurd h (List.not_mem_nil _)
  | k + 1, loc, rel, x, h => by
    unfold reported at h
    split at h
    · exact absurd h (List.not_mem_nil _)
    rename_i i hi
    obtain ⟨e, he, ⟨hm, rfl⟩ | ⟨-, hx⟩⟩ := mem_entryReports_iff.mp h
    · exact ⟨e.name, [], rfl, ⟨i, hi, e, he, rfl⟩, by simpa using hlisted loc i hi e he,
        by simpa using hm⟩
    · obtain ⟨n, u, rfl, -, hu, hm⟩ := mem_reported_inv k _ _ hx
      exact ⟨e.name, n :: u, by simp, ⟨i, hi, e, he, rfl⟩,
        List.forall_mem_cons.mpr ⟨hlisted loc i hi e he, hu⟩, by simpa using hm⟩

theorem mem_entryReports_below {k : Nat} {loc : Loc} {rel : List Char} {es : List Dirent} {x : Loc}
    (h : x ∈ entryReports c (reported c k) loc rel es) : ∃ e ∈ es, ∃ u, x = loc ++ e.name :: u := by
  obtain ⟨e, he, ⟨-, rfl⟩ | ⟨-, hx⟩⟩ := mem_entryReports_iff.mp h
  · exact ⟨e, he, [], rfl⟩
  · obtain ⟨n, u, rfl, -⟩ := mem_reported_inv hlisted k _ _ hx
    exact ⟨e, he, n :: u, by simp⟩

/-- The reports for entries with distinct names, each below its entry, hold no node twice. -/
theorem entryReports_nodup {k : Nat} (hk : ∀ l r, (reported c k l r).Nodup) {loc : Loc}
    {rel : List Char} :
    ∀ es : List Dirent, (es.map Dirent.name).Nodup → (entryReports c (reported c k) loc rel es).Nodup
  | [], _ => List.nodup_nil
  | e :: es, h => by
    rw [List.map_cons, List.nodup_cons] at h
    have hown : ∀ x ∈ entryReports c (reported c k) loc rel [e], ∃ u, x = loc ++ e.name :: u :=
      fun x hx => by
        obtain ⟨e', he', u, rfl⟩ := mem_entryReports_below hlisted hx
        exact ⟨u, by rw [List.mem_singleton.mp he']⟩
    have hsplit : entryReports c (reported c k) loc rel (e :: es) =
        entryReports c (reported c k) loc rel [e] ++ entryReports c (reported c k) loc rel es :=
      entryReports_append c _ loc rel [e] es
    rw [hsplit, List.nodup_append]
    refine ⟨?_, entryReports_nodup hk es h.2, fun x hx hx' => ?_⟩
    · simp only [entryReports, List.append_nil, List.nodup_append]
      refine ⟨by split <;> simp, by split <;> [exact hk _ _; exact List.nodup_nil], ?_⟩
      intro x hx hx'
      split at hx <;> [skip; cases hx]
      split at hx' <;> [skip; cases hx']
      obtain ⟨n, u, rfl, -⟩ := mem_reported_inv hlisted k _ _ hx'
      have := congrArg List.length (List.mem_singleton.mp hx)
      simp at this
    · obtain ⟨u, rfl⟩ := hown x hx
      obtain ⟨e', he', u', h'⟩ := mem_entryReports_below hlisted hx'
      have hn : e.name = e'.name := (List.cons.inj (List.append_cancel_left h')).1
      exact h.1 (hn ▸ List.mem_map_of_mem _ he')

/-- When no directory lists a name twice, the walk reports no node twice. -/
theorem reported_nodup
    (hnodup : ∀ loc i, c.fs.node loc = some i → ((listing i.readdir).map Dirent.name).Nodup) :
    ∀ (k : Nat) (loc : Loc) (rel : List Char), (reported c k loc rel).Nodup
  | 0, _, _ => List.nodup_nil
  | k + 1, loc, rel => by
    unfold reported
    split
    · exact List.nodup_nil
    · exact entryReports_nodup hlisted (reported_nodup hnodup k) _ (hnodup loc _ ‹_›)

end Reports

/-- A node the walk reports, and that a lookup found below its parent, is the node `root/c1/…/ck`,
reached through searchable directories, when no node lies at `root/w/c1/…/ck` for a nonempty
`w`. -/
theorem reported_lookedUp {c : Search} {names : List (List Char)}
    (hpat : c.pattern = names.flatMap ('/' :: ·))
    (hplain : ∀ n ∈ names, n ≠ [] ∧ n ≠ ['.'] ∧ n ≠ ['.', '.'] ∧
      ∀ ch ∈ n, ch ≠ '/' ∧ ch ≠ '*' ∧ ch ≠ '?' ∧ ch ≠ '[' ∧ ch ≠ '|')
    (hk : names ≠ []) (hO : c.fs.Opens) (hN : c.fs.PlainNames) {root : Loc} (hroot : PlainLoc root)
    (hne : root ≠ []) (hdeep : ∀ w, w ≠ [] → c.fs.node (root ++ w ++ names) = none) {k : Nat}
    {x : Loc} (hx : x ∈ reported c k root [])
    (hlk : ∃ l m t, x = l ++ [m] ∧ c.fs.lookup l l m = .ok t) :
    x = root ++ names ∧ c.fs.Chain root names := by
  obtain ⟨n, u, rfl, -, hu, hm⟩ := mem_reported_inv hN.listed k root [] hx
  obtain ⟨w, hw⟩ := matchPathname_names hpat hplain hk (List.cons_ne_nil n u) hu (by simpa using hm)
  obtain ⟨l, m, t, hx, hlk⟩ := hlk
  obtain ⟨init, last, rfl⟩ : ∃ init last, names = init ++ [last] :=
    ⟨_, _, (List.dropLast_append_getLast hk).symm⟩
  have hlast := plainName_of_names hplain (List.mem_append_right init (List.mem_singleton_self last))
  have hx' : l ++ [m] = (root ++ w ++ init) ++ [last] := by
    rw [← hx, hw, List.append_assoc, List.append_assoc]
  obtain ⟨rfl, hm'⟩ := List.append_inj' hx' rfl
  obtain rfl : last = m := (List.head_eq_of_cons_eq hm').symm
  obtain ⟨-, hch⟩ := @Fs.lookup_names _ _ _ _ [] (fun k hk => List.mem_singleton.mp hk ▸ hlast) _
    (by rwa [List.flatMap_nil, List.append_nil])
  obtain ⟨-, ⟨j, hj⟩, -⟩ := id hch
  obtain rfl : w = [] := by
    by_contra hw0
    have := hdeep w hw0
    rw [← List.append_assoc, hj] at this
    cases this
  have hl : PlainLoc (root ++ [] ++ init) := fun k hk => by
    rcases List.mem_append.mp hk with hk | hk
    · exact hroot k (by simpa using hk)
    · exact plainName_of_names hplain (List.mem_append_left _ hk)
  have hroot' := hO.chain_root hl
    (List.append_ne_nil_of_left_ne_nil (List.append_ne_nil_of_left_ne_nil hne _) _) hch
  rw [List.append_nil, List.append_assoc] at hroot'
  refine ⟨by rw [hw, List.nil_append], ?_⟩
  simpa using ((Fs.chain_append [] root (init ++ [last])).mp hroot').2

/-! ### The literal shortcut, root by root -/

/-- What the literal shortcut reports for the root `r`: the node `pat` names below it, when both
`kern_path` and `vfs_path_lookup` find one. -/
def literalReport (fs : Fs) (pat r : List Char) : List Loc :=
  match fs.resolve r with
  | .ok root =>
    match fs.lookup root root pat with
    | .ok target => [target]
    | .error _ => []
  | .error _ => []

theorem mem_literalReport {fs : Fs} {pat r : List Char} {t : Loc} :
    t ∈ literalReport fs pat r ↔ ∃ root, fs.resolve r = .ok root ∧ fs.lookup root root pat = .ok t := by
  unfold literalReport
  split
  · rename_i root hr
    split <;> simp_all [@eq_comm _ t]
  · simp_all

/-- A root of the literal shortcut that does not end the search: the reports of `literalReport`
are appended and counted, and the loop stops there under `SEARCH_STOPATFIRST` when there is one,
and goes on otherwise. -/
private theorem literalRoots_cons_ok {c : Search} {r : List Char} {rs : List (List Char)}
    {ds ds' : DirSearch} (h : literalRoots c (r :: rs) ds = .ok ds') :
    ∃ ds₁, ds₁.hits = ds.hits ++ literalReport c.fs c.pattern r ∧
      ds₁.results = ds.results + (literalReport c.fs c.pattern r).length ∧
      if hasFlag c.flags searchStopatfirst ∧ literalReport c.fs c.pattern r ≠ [] then ds₁ = ds'
      else literalRoots c rs ds₁ = .ok ds' := by
  rcases literalRoots_cons c r rs ds with ⟨ds₁, he, hl, hcase⟩ | ⟨st, ds₁, he, -⟩ |
    ⟨ds₁, root, target, st, hres, hlk, -, -, hl, he⟩
  · have hnil : literalReport c.fs c.pattern r = [] :=
      List.eq_nil_iff_forall_not_mem.mpr fun t ht => by
        obtain ⟨root, hres, hlk⟩ := mem_literalReport.mp ht
        rcases hcase with h' | ⟨root', h', h''⟩
        · rw [hres] at h'; cases h'
        · rw [hres, Except.ok.injEq] at h'
          subst h'
          rw [hlk] at h''; cases h''
    refine ⟨ds₁, ?_, ?_, ?_⟩
    · rw [hnil, List.append_nil]; exact congrArg Ledger.hits hl
    · rw [hnil]; simpa using congrArg Ledger.results hl
    · rw [hnil, if_neg fun h => h.2 rfl, ← he]; exact h
  · rw [he] at h; cases h
  · have hone : literalReport c.fs c.pattern r = [target] := by
      simp [literalReport, hres, hlk]
    refine ⟨ds₁, by rw [hone]; exact congrArg Ledger.hits hl, ?_, ?_⟩
    · rw [hone]; exact congrArg Ledger.results hl
    · rw [he] at h
      rw [hone]
      split at h
      · rw [if_pos ⟨‹_›, List.cons_ne_nil _ _⟩]; exact Except.ok.inj h
      · rw [if_neg fun h' => ‹¬_› h'.1]; exact h

/-! ### The walk, root by root -/

/-- Every node the walk reported was found by the lookup below its parent (line 1368). -/
def LookedUp (fs : Fs) (hits : List Loc) : Prop :=
  ∀ x ∈ hits, ∃ l m t, x = l ++ [m] ∧ fs.lookup l l m = .ok t

private theorem matchedEntry_of_lookup_error {c : Search} {loc : Loc} {e : Dirent} {err : Errno}
    (h : c.fs.lookup loc loc e.name = .error err) (ds : DirSearch) :
    matchedEntry c loc e ds = .error { ds with status := err.neg } := by
  rw [matchedEntry, h]

theorem keeps_lookedUp (c : Search) :
    Keeps c (fun ds => LookedUp c.fs ds.hits) (fun ds => LookedUp c.fs ds.hits) where
  stop _ h := h
  status _ _ _ h := h
  setPath _ _ h := h
  take _ _ h := h
  base _ _ _ h := h
  opened _ h := h
  close _ _ h := h
  resume _ h _ := h
  found _ h := h
  matched loc e ds h := by
    rcases hlk : c.fs.lookup loc loc e.name with err | t
    · rw [matchedEntry_of_lookup_error hlk]; exact h
    rcases matchedEntry_cases c loc e ds with
      ⟨ds', he, -, -, -, hl⟩ | ⟨ds', st, -, -, -, -, -, hl, he⟩ <;> rw [he]
    · show LookedUp c.fs ds'.hits
      rw [(DirSearch.counts_eq_of_failed hl).2.2]; exact h
    · have hh : LookedUp c.fs ds'.hits := by
        rw [show ds'.hits = ds.hits ++ [loc ++ [e.name]] from congrArg Ledger.hits hl]
        intro x hx
        rcases List.mem_append.mp hx with hx | hx
        · exact h x hx
        · exact ⟨loc, e.name, t, List.mem_singleton.mp hx, hlk⟩
      split <;> exact hh

/-- A list without duplicates whose every member is the only member of `R`, and which holds every
member of `R`, is `R`. -/
private theorem eq_of_forall_eq_singleton {α : Type} {L R : List α} (hnd : L.Nodup)
    (hA : ∀ x ∈ L, R = [x]) (hB : ∀ t ∈ R, t ∈ L) : L = R := by
  cases L with
  | nil => exact (List.eq_nil_iff_forall_not_mem.mpr fun t ht => List.not_mem_nil t (hB t ht)).symm
  | cons x rest =>
    have h1 := hA x (List.mem_cons_self x rest)
    obtain rfl : rest = [] := List.eq_nil_iff_forall_not_mem.mpr fun y hy => by
      obtain rfl : x = y :=
        List.singleton_inj.mp (h1.symm.trans (hA y (List.mem_cons_of_mem x hy)))
      exact (List.nodup_cons.mp hnd).1 hy
    exact h1.symm

section Root

variable {c : Search} {names : List (List Char)} (hpat : c.pattern = names.flatMap ('/' :: ·))
  (hplain : ∀ n ∈ names, n ≠ [] ∧ n ≠ ['.'] ∧ n ≠ ['.', '.'] ∧
    ∀ ch ∈ n, ch ≠ '/' ∧ ch ≠ '*' ∧ ch ≠ '?' ∧ ch ≠ '[' ∧ ch ≠ '|')
  (hk : names ≠ []) (hdepth : names.length ≤ treeDepth) (hO : c.fs.Opens) (hL : c.fs.Lists)
  (hN : c.fs.PlainNames) (hfs : c.fs.NoHooks)
  (hnodup : ∀ loc i, c.fs.node loc = some i → ((listing i.readdir).map Dirent.name).Nodup)

include hpat hplain hk

/-- The literal shortcut looks up the names below the root. -/
theorem lookup_pattern_tail {top root t : Loc} (h : c.fs.lookup top root c.pattern.tail = .ok t) :
    t = root ++ names ∧ c.fs.Chain root names := by
  obtain ⟨n, ns, rfl⟩ := List.exists_cons_of_ne_nil hk
  rw [hpat] at h
  exact Fs.lookup_names (fun m hm => plainName_of_names hplain hm) h

private theorem lookup_pattern_tail_of_chain {top root : Loc} (h : c.fs.Chain root names) :
    c.fs.lookup top root c.pattern.tail = .ok (root ++ names) := by
  obtain ⟨n, ns, rfl⟩ := List.exists_cons_of_ne_nil hk
  rw [hpat]
  exact Fs.lookup_of_chain (fun m hm => plainName_of_names hplain hm) h

include hdepth hO hL hN hfs hnodup

/-- From a root other than `/`, on a tree in which no node lies at `root/w/c1/…/ck` for a nonempty
`w`, a walk that returns `0` reports what the literal shortcut reports for that root, and counts
it. -/
theorem searchDirectory_literalReport {r : List Char} (hr : c.fs.resolve r ≠ .ok [])
    (hdeep : ∀ root, c.fs.resolve r = .ok root → ∀ w, w ≠ [] → c.fs.node (root ++ w ++ names) = none)
    {ds : DirSearch} (hn : hasFlag c.flags searchStopatfirst → ds.results = 0)
    (hl : LookedUp c.fs ds.hits) (h0 : (searchDirectory c 0 { ds.setPath r with base := 0 }).1 = 0) :
    (searchDirectory c 0 { ds.setPath r with base := 0 }).2.hits =
        ds.hits ++ literalReport c.fs c.pattern.tail r ∧
      (searchDirectory c 0 { ds.setPath r with base := 0 }).2.results =
        ds.results + (literalReport c.fs c.pattern.tail r).length := by
  have hlk : LookedUp c.fs (searchDirectory c 0 { ds.setPath r with base := 0 }).2.hits :=
    (keeps_lookedUp c).searchLevels hfs _ _ hl
  change (searchLevels c (15 + 1) _).1 = 0 at h0
  change LookedUp c.fs (searchLevels c (15 + 1) _).2.hits at hlk
  show (searchLevels c (15 + 1) _).2.hits = _ ∧ (searchLevels c (15 + 1) _).2.results = _
  rcases hopen : c.fs.filpOpen r with e | ⟨loc, i⟩
  · -- a root that does not open is a root whose lookup fails
    have hnil : literalReport c.fs c.pattern.tail r = [] :=
      List.eq_nil_iff_forall_not_mem.mpr fun t ht => by
        obtain ⟨root, hres, hlk⟩ := mem_literalReport.mp ht
        obtain ⟨i, hi, hdir, -⟩ := (lookup_pattern_tail hpat hplain hk hlk).2.start hk
        have := hO.filpOpen_dir hres hi hdir
        rw [hopen] at this
        cases this
    have hopen' : c.fs.filpOpen { ds.setPath r with base := 0 }.path = .error e := hopen
    rw [searchLevels_succ, hopen', hnil]
    exact ⟨(List.append_nil _).symm, by rw [List.length_nil, Nat.cast_zero, Int.add_zero]; rfl⟩
  obtain ⟨hres, -⟩ := c.fs.filpOpen_ok hopen
  have hloc : loc ≠ [] := fun h => hr (h ▸ hres)
  have hplainLoc : PlainLoc loc := Fs.resolve_plain hN.cwd hres
  -- a report of the walk that was looked up is what the shortcut reports
  have hA : ∀ x ∈ reported c treeDepth loc [], (∃ l m t, x = l ++ [m] ∧ c.fs.lookup l l m = .ok t) →
      literalReport c.fs c.pattern.tail r = [x] := fun x hx hlx => by
    obtain ⟨rfl, hch⟩ := reported_lookedUp hpat hplain hk hO hN hplainLoc hloc (hdeep loc hres) hx hlx
    simp [literalReport, hres, lookup_pattern_tail_of_chain hpat hplain hk hch]
  -- what the shortcut reports, the walk meets
  have hB : ∀ t ∈ literalReport c.fs c.pattern.tail r, t ∈ reported c treeDepth loc [] := by
    intro t ht
    obtain ⟨root, hres', hlk'⟩ := mem_literalReport.mp ht
    rw [hres, Except.ok.injEq] at hres'
    subst hres'
    obtain ⟨rfl, hch⟩ := lookup_pattern_tail hpat hplain hk hlk'
    simpa using mem_reported_names hpat hplain hL loc names [] treeDepth (by simp) hk hdepth
      (by simpa using hch)
  rcases searchLevels_root_reports hO hfs 15 { ds.setPath r with base := 0 } rfl hopen hloc hn h0
    with h | h
  · obtain ⟨⟨hh, -⟩, hres, -⟩ := h
    rw [hh] at hlk
    have heq := eq_of_forall_eq_singleton (reported_nodup hN.listed hnodup treeDepth loc [])
      (fun x hx => hA x hx (hlk x (List.mem_append_right _ hx))) hB
    exact ⟨heq ▸ hh, heq ▸ hres⟩
  · obtain ⟨hh, hres, hne, -⟩ := h
    obtain ⟨x, rest, hrep⟩ := List.exists_cons_of_ne_nil hne
    have hx : x ∈ reported c treeDepth loc [] := hrep ▸ List.mem_cons_self x rest
    rw [hrep] at hh
    have h1 := hA x hx (hlk x (hh ▸ List.mem_append_right _ (List.mem_singleton_self x)))
    rw [h1]
    exact ⟨hh, hres⟩

/-- The two roots loops in step: from states with the same reports and count, roots other than
`/` below which no node lies at `root/w/c1/…/ck` for a nonempty `w` make the walk and the literal
shortcut, when neither ends the search, report the same nodes and count the same, with or without
`SEARCH_STOPATFIRST`. -/
theorem walk_literal_hits : ∀ (roots : List (List Char)),
    (∀ r ∈ roots, c.fs.resolve r ≠ .ok []) →
    (∀ r ∈ roots, ∀ root, c.fs.resolve r = .ok root → ∀ w, w ≠ [] →
      c.fs.node (root ++ w ++ names) = none) →
    ∀ (ds₁ ds₂ : DirSearch), ds₁.hits = ds₂.hits → ds₁.results = ds₂.results →
      LookedUp c.fs ds₁.hits → (hasFlag c.flags searchStopatfirst → ds₁.results = 0) →
      ∀ {ds₁' ds₂' : DirSearch}, walkRoots c roots ds₁ = .ok ds₁' →
        literalRoots { c with pattern := c.pattern.tail } roots ds₂ = .ok ds₂' →
        ds₁'.hits = ds₂'.hits ∧ ds₁'.results = ds₂'.results
  | [], _, _, _, _, hh, hr, _, _, _, _, h₁, h₂ => by
    cases h₁; cases h₂; exact ⟨hh, hr⟩
  | r :: rs, hroots, hdeep, ds₁, ds₂, hh, hr, hl, hn, _, _, h₁, h₂ => by
    obtain ⟨h0, hw⟩ := walkRoots_cons_ok h₁
    obtain ⟨hwh, hwr⟩ := searchDirectory_literalReport hpat hplain hk hdepth hO hL hN hfs hnodup
      (hroots r (.head _)) (hdeep r (.head _)) hn hl h0
    obtain ⟨ds₃, h3h, h3r, hlit⟩ := literalRoots_cons_ok h₂
    dsimp only at h3h h3r hlit
    by_cases hs : hasFlag c.flags searchStopatfirst ∧ literalReport c.fs c.pattern.tail r ≠ []
    · have hpos : 0 < (searchDirectory c 0 { ds₁.setPath r with base := 0 }).2.results ∧
          hasFlag c.flags searchStopatfirst := by
        refine ⟨?_, hs.1⟩
        rw [hwr, hn hs.1, Int.zero_add, Int.natCast_pos]
        exact List.length_pos.mpr hs.2
      rw [if_pos hpos] at hw
      rw [if_pos hs] at hlit
      subst hw hlit
      exact ⟨by rw [hwh, h3h, hh], by rw [hwr, h3r, hr]⟩
    · have hnil : hasFlag c.flags searchStopatfirst → literalReport c.fs c.pattern.tail r = [] :=
        fun hst => not_not.mp fun h => hs ⟨hst, h⟩
      rw [if_neg fun h => hs ⟨h.2, fun hnil' => by
        rw [hwr, hn h.2, hnil'] at h; simp at h⟩] at hw
      rw [if_neg hs] at hlit
      exact walk_literal_hits rs (fun r' h => hroots r' (.tail _ h)) (fun r' h => hdeep r' (.tail _ h))
        (searchDirectory c 0 { ds₁.setPath r with base := 0 }).2 ds₃ (by rw [hwh, h3h, hh])
        (by rw [hwr, h3r, hr])
        ((keeps_lookedUp c).searchLevels hfs _ _ hl)
        (fun hst => by rw [hwr, hn hst, hnil hst]; rfl) hw hlit

end Root

/-! ### The counts -/

theorem finish_ok_count {len0 : Nat} {ds : DirSearch} (h : BufferInv len0 ds.ledger)
    (hok : 0 ≤ (finish (.ok ds)).1) : (finish (.ok ds)).1 = ds.emitted.length := by
  show (closeOutput ds).1 = _
  rw [h.closeOutput.1.ret_eq hok]
  exact congrArg (fun l : List SearchRecord => (l.length : Int)) h.closeOutput.2.1

theorem smallFs_lists : smallFs.Lists :=
  Fs.lists_of_parent fun _ _ h => smallFs_node_elim (motive := fun l j => l ≠ [] →
      ∃ i, smallFs.node l.dropLast = some i ∧
        ∃ e ∈ listing i.readdir, some e.name = l.getLast? ∧ e.isDir = j.isDir)
    (absurd rfl) (fun _ => ⟨_, rfl, _, .head _, rfl, rfl⟩) (fun _ => ⟨_, rfl, _, .head _, rfl, rfl⟩)
    (fun _ => ⟨_, rfl, _, .tail _ (.head _), rfl, rfl⟩) (fun _ => ⟨_, rfl, _, .head _, rfl, rfl⟩) h

theorem smallFs_nodup (loc : Loc) (i : Inode) (h : smallFs.node loc = some i) :
    ((listing i.readdir).map Dirent.name).Nodup :=
  smallFs_node_elim (motive := fun _ i => ((listing i.readdir).map Dirent.name).Nodup)
    (by decide) (by decide) (by decide) (by decide) (by decide) h

/-- The nodes of `smallFs` lie at most three names deep. -/
private theorem smallFs_node_length {loc : Loc} {i : Inode} (h : smallFs.node loc = some i) :
    loc.length ≤ 3 :=
  smallFs_node_elim (motive := fun loc _ => loc.length ≤ 3)
    (by decide) (by decide) (by decide) (by decide) (by decide) h

/-- A child found by its parent's `fs.node` entry, from the last name of its location. -/
private theorem nestFs_lists : nestFs.Lists :=
  Fs.lists_of_parent fun _ _ h => nestFs_node_elim (motive := fun l j => l ≠ [] →
      ∃ i, nestFs.node l.dropLast = some i ∧
        ∃ e ∈ listing i.readdir, some e.name = l.getLast? ∧ e.isDir = j.isDir)
    (absurd rfl) (fun _ => ⟨_, rfl, _, .head _, rfl, rfl⟩) (fun _ => ⟨_, rfl, _, .head _, rfl, rfl⟩)
    (fun _ => ⟨_, rfl, _, .head _, rfl, rfl⟩) (fun _ => ⟨_, rfl, _, .head _, rfl, rfl⟩) h

end SearchSyscall
