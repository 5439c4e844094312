import SearchSyscall.Accounting
import SearchSyscall.Lang

/-!
# The search against the tree

* `search_walk_hits`: for a pattern that needs the walk and one root that opens as a directory other
  than `/`, on a tree in which every directory opens, a search without `SEARCH_STOPATFIRST` that
  succeeds reports exactly `reported` below the root, with one record per report.
* `search_reports_lang`: for a pattern of one alternative that does not start with `/`, has no `|`
  and fewer than 8 wildcards, these are the entries of the tree whose path relative to the root is
  in the pattern's language, in the order the walk lists them.
* `search_lang_counterexamples`: with two alternatives, or with an anchored pattern, they are not:
  the first alternative's `PARTIAL` outcome hides the second's `SUCCESS`, and an anchored pattern
  is matched after every `/` of the path.
-/

namespace SearchSyscall

/-! ### One record per report -/

/-- Every report of the walk places one record. -/
private theorem keeps_recordPerHit (c : Search) :
    Keeps c (fun ds => ds.emitted.length = ds.hits.length)
      (fun ds => ds.emitted.length = ds.hits.length) where
  stop _ h := h
  status _ _ _ h := h
  setPath _ _ h := h
  take _ _ h := h
  base _ _ _ h := h
  opened _ h := h
  close _ _ h := h
  resume _ h _ := h
  found _ h := h
  matched loc e ds h := by
    rcases matchedEntry_cases c loc e ds with
      ⟨ds', he, -, -, -, hl⟩ | ⟨ds', st, -, -, -, -, -, hl, he⟩ <;> rw [he]
    · obtain ⟨-, h1, h2⟩ := DirSearch.counts_eq_of_failed hl
      show ds'.emitted.length = ds'.hits.length
      rw [h1, h2, h]
    · have h1 : ds'.emitted = (ds.wrote _).emitted := congrArg Ledger.emitted hl
      have h2 : ds'.hits = ds.hits ++ [loc ++ [e.name]] := congrArg Ledger.hits hl
      split <;>
      · show ds'.emitted.length = ds'.hits.length
        simp [h1, h2, DirSearch.wrote, h]

/-! ### One root -/

/-- A roots loop that does not fail: the first root's search returned `0`, and the loop stopped
there with a match under `SEARCH_STOPATFIRST` or went on with the other roots. -/
theorem walkRoots_cons_ok {c : Search} {r : List Char} {rs : List (List Char)} {ds ds' : DirSearch}
    (h : walkRoots c (r :: rs) ds = .ok ds') :
    (searchDirectory c 0 { ds.setPath r with base := 0 }).1 = 0 ∧
      if 0 < (searchDirectory c 0 { ds.setPath r with base := 0 }).2.results ∧
          hasFlag c.flags searchStopatfirst
      then (searchDirectory c 0 { ds.setPath r with base := 0 }).2 = ds'
      else walkRoots c rs (searchDirectory c 0 { ds.setPath r with base := 0 }).2 = .ok ds' := by
  rw [walkRoots] at h
  generalize searchDirectory c 0 { ds.setPath r with base := 0 } = res at h ⊢
  obtain ⟨st, ds1⟩ := res
  dsimp only at h ⊢
  by_cases hst : st = 0
  · subst hst
    simp only [ne_eq, not_true_eq_false, if_false] at h
    refine ⟨rfl, ?_⟩
    split at h
    · rw [if_pos ‹_›]; exact Except.ok.inj h
    · rw [if_neg ‹_›]; exact h
  · simp [hst] at h

private theorem walkRoots_single_ok {c : Search} {r : List Char} {ds ds' : DirSearch}
    (h : walkRoots c [r] ds = .ok ds') :
    (searchDirectory c 0 { ds.setPath r with base := 0 }).1 = 0 ∧
      (searchDirectory c 0 { ds.setPath r with base := 0 }).2 = ds' := by
  obtain ⟨h0, h1⟩ := walkRoots_cons_ok h
  refine ⟨h0, ?_⟩
  split at h1
  · exact h1
  · rw [walkRoots] at h1; exact Except.ok.inj h1

/-- The walk from one root that opens as a directory other than `/`, on a tree in which every
directory opens, without `SEARCH_STOPATFIRST`: when the roots loop does not fail, it adds exactly
`reported` below the root to `hits`, and one record per report. -/
private theorem walkRoots_single_hits {c : Search} {r : List Char} {ds ds' : DirSearch} {loc : Loc}
    {i : Inode} (hO : c.fs.Opens) (hfs : c.fs.NoHooks)
    (hstop : hasFlag c.flags searchStopatfirst = false) (hroot : c.fs.filpOpen r = .ok (loc, i))
    (hloc : loc ≠ []) (h : walkRoots c [r] ds = .ok ds') :
    ds'.hits = ds.hits ++ reported c treeDepth loc [] ∧
      (ds.emitted.length = ds.hits.length → ds'.emitted.length = ds'.hits.length) := by
  obtain ⟨h0, rfl⟩ := walkRoots_single_ok h
  exact ⟨searchLevels_root_hits hstop hO hfs 15 { ds.setPath r with base := 0 } rfl hroot hloc h0,
    (keeps_recordPerHit c).searchLevels hfs 16 { ds.setPath r with base := 0 }⟩

/-- The walk from one root that opens as a directory other than `/`, on a tree in which every
directory opens: a search without `SEARCH_STOPATFIRST` that succeeds reports exactly `reported`
below the root, one record per report. -/
theorem search_walk_hits (env : Env) (r p : List Char) (flags : Nat) (len : UInt64) {loc : Loc}
    {i : Inode} (hO : env.fs.Opens) (hfs : env.fs.NoHooks) (hdirs : env.dirsAlloc = true)
    (hpat : ispattern p = true) (hr : '|' ∉ r) (hroot : env.fs.filpOpen r = .ok (loc, i))
    (hloc : loc ≠ []) (hstop : hasFlag flags searchStopatfirst = false)
    (hok : 0 ≤ (search env (some r) (some p) flags len).1) :
    (search env (some r) (some p) flags len).2.hits =
        reported ⟨env.fs, p, flags, isrecursive p⟩ treeDepth loc [] ∧
      (search env (some r) (some p) flags len).2.emitted.length =
        (search env (some r) (some p) flags len).2.hits.length := by
  rcases search_cases env (some r) (some p) flags len with
    ⟨hret | ⟨hd, -⟩, -⟩ | ⟨ps, pat, ds, hps, hpat', hl, hs, -, hret, hl'⟩
  · omega
  · rw [hd] at hdirs; cases hdirs
  obtain rfl := eq_of_getname hps
  obtain rfl := eq_of_getname hpat'
  have hsplit : ps.splitOn '|' = [ps] :=
    List.splitOnP_eq_single _ _ fun c hc h => hr (by simpa using (beq_iff_eq.mp h) ▸ hc)
  simp only [hpat, if_true, hsplit] at hret hl'
  obtain ⟨ds', ho, -⟩ := (walkRoots_bufferInv hfs len.toNat [ps]
    (hl ▸ bufferInv_init env.mem len.toNat) (hs ▸ Int.le_refl 0)).finish (hret ▸ hok)
  have hh0 : ds.hits = [] := congrArg Ledger.hits hl
  have he0 : ds.emitted = [] := congrArg Ledger.emitted hl
  obtain ⟨hhits, hcount⟩ := walkRoots_single_hits hO hfs hstop hroot hloc ho
  have hfin : (search env (some ps) (some pat) flags len).2.ledger = (closeOutput ds').2.ledger := by
    rw [hl', ho]; rfl
  have hh : (search env (some ps) (some pat) flags len).2.hits = ds'.hits :=
    (congrArg Ledger.hits hfin).trans (closeOutput_hits ds')
  have he : (search env (some ps) (some pat) flags len).2.emitted = ds'.emitted :=
    (congrArg Ledger.emitted hfin).trans (closeOutput_emitted ds')
  exact ⟨by rw [hh, hhits, hh0]; rfl, by rw [hh, he]; exact hcount (by rw [hh0, he0]; rfl)⟩

/-! ### The language of a pattern of one alternative -/

/-- For a pattern of one alternative that does not start with `/`, has no `|` and fewer than 8
`*` or `?`, and one root that opens as a directory other than `/`, on a tree in which every
directory opens: a search without `SEARCH_STOPATFIRST` that succeeds emits one record for each
entry that `readdir` lists in a directory reached from the root through `DT_DIR` entries other than
`.` and `..`, at most `TREE_DEPTH` components deep, whose path relative to the root is in the
pattern's language, and no other record. -/
theorem search_reports_lang (env : Env) (r p : List Char) (flags : Nat) (len : UInt64) {loc : Loc}
    {i : Inode} (hO : env.fs.Opens) (hfs : env.fs.NoHooks) (hdirs : env.dirsAlloc = true)
    (hr : '|' ∉ r) (hroot : env.fs.filpOpen r = .ok (loc, i)) (hloc : loc ≠ [])
    (hbar : '|' ∉ p) (hanch : p.head? ≠ some '/') (hw : wildcardCount p < 8)
    (hstop : hasFlag flags searchStopatfirst = false)
    (hok : 0 ≤ (search env (some r) (some p) flags len).1) :
    (search env (some r) (some p) flags len).2.hits =
        ((treeEntries env.fs treeDepth loc []).filter fun x => inLang x.2 p).map Prod.fst ∧
      (search env (some r) (some p) flags len).2.emitted.length =
        (search env (some r) (some p) flags len).2.hits.length := by
  have hpat : ispattern p = true := by simp [ispattern, hanch]
  have hrec : isrecursive p = true := by simp [isrecursive, barPointers_of_not_mem hbar, hanch]
  obtain ⟨hh, hc⟩ := search_walk_hits env r p flags len hO hfs hdirs hpat hr hroot hloc hstop hok
  exact ⟨hh.trans (reported_eq_filter (c := ⟨env.fs, p, flags, isrecursive p⟩) hrec hbar hanch hw
    treeDepth loc [] rfl), hc⟩

theorem smallFs_opens : smallFs.Opens := by
  constructor
  · intro loc i h
    refine smallFs_node_elim (motive := fun loc i => i.isDir → smallFs.filpOpen (absPath loc) = .ok (loc, i))
      ?_ ?_ ?_ ?_ ?_ h <;> intro hd <;> first | rfl | cases hd
  · intro loc i e h
    refine smallFs_node_elim (motive := fun loc i => e ∈ listing i.readdir → e.isDir → e.name ≠ ['.'] →
      e.name ≠ ['.', '.'] → ∃ j, smallFs.node (loc ++ [e.name]) = some j ∧ j.isDir) ?_ ?_ ?_ ?_ ?_ h <;>
      intro he hd _ _ <;> simp [listing, dirNode, fileNode] at he <;>
      rcases he with rfl | rfl <;> first | exact ⟨_, rfl, rfl⟩ | cases hd

theorem search_reports_lang_small :
    smallEnv.fs.Opens ∧ smallEnv.fs.NoHooks ∧ smallEnv.dirsAlloc = true ∧ '|' ∉ "/t".toList ∧
      smallEnv.fs.filpOpen "/t".toList = .ok ([['t']], dirNode [⟨['a'], false⟩, ⟨['s'], true⟩]) ∧
      [['t']] ≠ [] ∧ '|' ∉ "*".toList ∧ "*".toList.head? ≠ some '/' ∧
      wildcardCount "*".toList < 8 ∧ hasFlag 0 searchStopatfirst = false ∧
      0 ≤ (search smallEnv (some "/t".toList) (some "*".toList) 0 100).1 ∧
      ((search smallEnv (some "/t".toList) (some "*".toList) 0 100).2.hits =
          ((treeEntries smallEnv.fs treeDepth [['t']] []).filter
            fun x => inLang x.2 "*".toList).map Prod.fst ∧
        (search smallEnv (some "/t".toList) (some "*".toList) 0 100).2.emitted.length =
          (search smallEnv (some "/t".toList) (some "*".toList) 0 100).2.hits.length) :=
  ⟨smallFs_opens, smallFs_noHooks, rfl, by decide, rfl, by decide, by decide, by decide, by decide,
    rfl, by decide, search_reports_lang smallEnv _ _ 0 100 smallFs_opens smallFs_noHooks rfl
      (by decide) rfl (by decide) (by decide) (by decide) (by decide) rfl (by decide)⟩

/-! ### Where the language and the walk part -/

/-- `/t/a/a/b`: the directories `a` and `a/a` and the file `a/a/b`. -/
def nestFs : Fs where
  node
    | [] => some (dirNode [⟨['t'], true⟩])
    | [['t']] => some (dirNode [⟨['a'], true⟩])
    | [['t'], ['a']] => some (dirNode [⟨['a'], true⟩])
    | [['t'], ['a'], ['a']] => some (dirNode [⟨['b'], false⟩])
    | [['t'], ['a'], ['a'], ['b']] => some fileNode
    | _ => none
  cwd := []
  mountPath _ := ['/']

def nestEnv : Env := ⟨nestFs, bufMem, true, true, true⟩

/-- The five nodes of `nestFs`: what holds of each holds of every node. -/
theorem nestFs_node_elim {motive : Loc → Inode → Prop}
    (root : motive [] (dirNode [⟨['t'], true⟩])) (t : motive [['t']] (dirNode [⟨['a'], true⟩]))
    (ta : motive [['t'], ['a']] (dirNode [⟨['a'], true⟩]))
    (taa : motive [['t'], ['a'], ['a']] (dirNode [⟨['b'], false⟩]))
    (taab : motive [['t'], ['a'], ['a'], ['b']] fileNode) {loc : Loc} {i : Inode}
    (h : nestFs.node loc = some i) : motive loc i := by
  dsimp only [nestFs] at h
  split at h <;> cases h <;> assumption

theorem nestFs_opens : nestFs.Opens := by
  constructor
  · intro loc i h
    refine nestFs_node_elim (motive := fun loc i => i.isDir → nestFs.filpOpen (absPath loc) = .ok (loc, i))
      ?_ ?_ ?_ ?_ ?_ h <;> intro hd <;> first | rfl | cases hd
  · intro loc i e h
    refine nestFs_node_elim (motive := fun loc i => e ∈ listing i.readdir → e.isDir → e.name ≠ ['.'] →
      e.name ≠ ['.', '.'] → ∃ j, nestFs.node (loc ++ [e.name]) = some j ∧ j.isDir) ?_ ?_ ?_ ?_ ?_ h <;>
      intro he hd _ _ <;> simp [listing, dirNode, fileNode] at he <;>
      subst he <;> first | exact ⟨_, rfl, rfl⟩ | cases hd

/-- The pattern `s/b|s` on `/t` does not report `/t/s`, whose path `/s` is in the language of the
alternative `s`: the alternative `s/b|s` comes first and gives `PARTIAL`.  The anchored pattern
`/a/b*` on `/t/a/a/b` reports `/t/a/a/b`, whose path `/a/a/b` is not in its language: the
pattern is matched after every `/` of the path, and the walk descends wherever that gives
`PARTIAL`. -/
theorem search_lang_counterexamples :
    (smallFs.Opens ∧ 0 ≤ (search smallEnv (some "/t".toList) (some "s/b|s".toList) 0 100).1 ∧
      ([['t'], ['s']], "/s".toList) ∈ treeEntries smallFs treeDepth [['t']] [] ∧
      inLang "/s".toList "s/b|s".toList = true ∧
      [['t'], ['s']] ∉ (search smallEnv (some "/t".toList) (some "s/b|s".toList) 0 100).2.hits) ∧
    (nestFs.Opens ∧ 0 ≤ (search nestEnv (some "/t".toList) (some "/a/b*".toList) 0 100).1 ∧
      ([['t'], ['a'], ['a'], ['b']], "/a/a/b".toList) ∈ treeEntries nestFs treeDepth [['t']] [] ∧
      inLang "/a/a/b".toList "/a/b*".toList = false ∧
      [['t'], ['a'], ['a'], ['b']] ∈
        (search nestEnv (some "/t".toList) (some "/a/b*".toList) 0 100).2.hits) :=
  ⟨⟨smallFs_opens, by decide, by decide, by decide, by decide⟩,
    ⟨nestFs_opens, by decide, by decide, by decide, by decide⟩⟩

end SearchSyscall
