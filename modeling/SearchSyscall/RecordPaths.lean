import SearchSyscall.PathWalk
import SearchSyscall.Traversal

/-!
# What the path field of a record holds

The walk reports the entry `n` of the directory `loc` with `copy_search_result(…, ds->dirs[n].entry,
…)`, the entry's name, or under `SEARCH_INCLUDEROOT` with `ds->path` (lines 1380-1383), which the
walk has built as the canonical path of `loc` followed by `/n`.

* `recordPath flags hit` is that field for the report of the node `hit`, and `RecordPaths` says
  that every record emitted so far carries the field its report calls for.
* Without `SEARCH_INCLUDEROOT` every step of the walk keeps it (`keeps_recordPaths`); with it,
  the matched step needs the path, and `KeepsAt` supplies it on a tree whose directories list no
  name holding `/` (`keepsAt_recordPaths`).
* `search_record_paths`: whatever a search that takes the walk returns, the records it leaves are
  those.  The field is not the path relative to the root that the literal shortcut reports
  (`ds->path + ds->base`, line 1514): below the root's first level it is the name alone, and under
  `SEARCH_INCLUDEROOT` it starts with the canonical path of the entry's directory, not the root as
  given, and below `/` only the top level starts with `//` (`search_record_paths_not_relative`).  The TODO at lines 1016-1017 notes the output path
  of the pattern case is wrong.
-/

namespace SearchSyscall

/-- The path field of the record of the node `hit`, the entry `n` of the directory `loc`: the name
`n`, or under `SEARCH_INCLUDEROOT` the canonical path of `loc` followed by `/n`. -/
def recordPath (flags : Nat) (hit : Loc) : List Char :=
  if hasFlag flags searchIncluderoot then absPath hit.dropLast ++ '/' :: hit.getLast?.getD []
  else hit.getLast?.getD []

@[simp] theorem recordPath_append (flags : Nat) (loc : Loc) (n : List Char) :
    recordPath flags (loc ++ [n]) =
      if hasFlag flags searchIncluderoot then absPath loc ++ '/' :: n else n := by
  simp [recordPath]

/-- Every record emitted carries the path field its report calls for. -/
def RecordPaths (flags : Nat) (l : Ledger) : Prop :=
  l.emitted.map SearchRecord.path = l.hits.map (recordPath flags)

/-- A matched entry keeps `RecordPaths` where, under `SEARCH_INCLUDEROOT`, the path is the one the
walk builds for it. -/
theorem recordPaths_matched {c : Search} {loc : Loc} {e : Dirent} {ds : DirSearch}
    (hpath : hasFlag c.flags searchIncluderoot = true → ds.path = absPath loc ++ '/' :: e.name)
    (h : RecordPaths c.flags ds.ledger ∧ ds.status ≤ 0) :
    Lands (fun ds => RecordPaths c.flags ds.ledger ∧ ds.status ≤ 0)
      (fun ds => RecordPaths c.flags ds.ledger ∧ ds.status ≤ 0) (matchedEntry c loc e ds) := by
  rcases matchedEntry_cases c loc e ds with
    ⟨ds', he, hs, -, -, hl⟩ | ⟨ds', st, -, -, hs, -, -, hl, he⟩
  · obtain ⟨-, h1, h2⟩ := DirSearch.counts_eq_of_failed hl
    rw [he]
    refine ⟨?_, Int.le_of_lt hs⟩
    show ds'.emitted.map _ = ds'.hits.map _
    rw [h1, h2]; exact h.1
  · have h1 : ds'.emitted = (ds.wrote _).emitted := congrArg Ledger.emitted hl
    have h2 : ds'.hits = ds.hits ++ [loc ++ [e.name]] := congrArg Ledger.hits hl
    have hr : RecordPaths c.flags ds'.ledger := by
      show ds'.emitted.map _ = ds'.hits.map _
      have h0 : ds.emitted.map SearchRecord.path = ds.hits.map (recordPath c.flags) := h.1
      rw [h1, h2]
      simp only [DirSearch.wrote, List.map_append, h0, List.map_cons, List.map_nil, searchRecord,
        recordPath_append]
      cases hf : hasFlag c.flags searchIncluderoot
      · rfl
      · rw [hpath hf]
    rw [he]
    split <;> exact ⟨hr, hs ▸ Int.le_refl 0⟩

/-- Without `SEARCH_INCLUDEROOT` the field is the name, and every step keeps `RecordPaths`. -/
theorem keeps_recordPaths (c : Search) (hf : hasFlag c.flags searchIncluderoot = false) :
    Keeps c (fun ds => RecordPaths c.flags ds.ledger ∧ ds.status ≤ 0)
      (fun ds => RecordPaths c.flags ds.ledger ∧ ds.status ≤ 0) where
  stop _ h := h
  status _ _ hs h := ⟨h.1, hs⟩
  setPath _ _ h := h
  take _ _ h := h
  base _ _ _ h := h
  opened _ h := h
  close _ _ h := h
  resume _ h _ := ⟨h.1, Int.le_refl 0⟩
  found _ h := ⟨h.1, Int.le_refl 0⟩
  matched _ _ _ h := recordPaths_matched (fun h' => absurd (hf.symm.trans h') Bool.false_ne_true) h

/-- With or without `SEARCH_INCLUDEROOT`, every step keeps `RecordPaths` at the path the walk
builds. -/
theorem keepsAt_recordPaths (c : Search) :
    KeepsAt c (fun ds => RecordPaths c.flags ds.ledger ∧ ds.status ≤ 0)
      (fun ds => RecordPaths c.flags ds.ledger ∧ ds.status ≤ 0) where
  stop _ h := h
  status _ _ hs h := ⟨h.1, hs⟩
  setPath _ _ h := h
  take _ _ h := h
  base _ _ _ h := h
  opened _ h := h
  close _ _ h := h
  resume _ h _ := ⟨h.1, Int.le_refl 0⟩
  found _ h := ⟨h.1, Int.le_refl 0⟩
  matched _ _ _ hp h := recordPaths_matched (fun _ => hp) h

private theorem recordPaths_finish {flags : Nat} {o : Except (Int × DirSearch) DirSearch}
    (h : RootsLand (fun ds => RecordPaths flags ds.ledger ∧ ds.status ≤ 0) o) :
    RecordPaths flags (finish o).2.ledger := by
  cases o with
  | ok ds =>
    show (closeOutput ds).2.emitted.map _ = (closeOutput ds).2.hits.map _
    rw [closeOutput_emitted, closeOutput_hits]
    exact h.1
  | error r => exact h.2.1

/-- Without native search hooks, every record a search that takes the walk leaves, whatever it
returns, carries the path field of its report: the entry's name, or under `SEARCH_INCLUDEROOT`,
on a tree whose directories list no name holding `/`, the canonical path of the entry's directory
followed by `/` and the name. -/
theorem search_record_paths (env : Env) (paths : Option (List Char)) (p : List Char) (flags : Nat)
    (len : UInt64) (hfs : env.fs.NoHooks) (hpat : ispattern p = true)
    (hN : hasFlag flags searchIncluderoot = true → env.fs.PlainNames) :
    (search env paths (some p) flags len).2.emitted.map SearchRecord.path =
      (search env paths (some p) flags len).2.hits.map (recordPath flags) := by
  show RecordPaths flags (search env paths (some p) flags len).2.ledger
  rcases search_cases env paths (some p) flags len with
    ⟨-, hl⟩ | ⟨ps, pat, ds, -, hpat', hl, hs, -, -, hl'⟩
  · rw [hl]; rfl
  obtain rfl := eq_of_getname hpat'
  rw [hl']
  simp only [hpat, if_true]
  have h0 : RecordPaths flags ds.ledger ∧ ds.status ≤ 0 := ⟨by rw [hl]; rfl, hs ▸ Int.le_refl 0⟩
  refine recordPaths_finish ?_
  cases hf : hasFlag flags searchIncluderoot
  · exact walkRoots_lands (keeps_recordPaths ⟨env.fs, pat, flags, isrecursive pat⟩ hf) hfs
      (fun _ h => h.2) (fun _ _ h => h) (fun _ h _ => h) _ _ h0
  · have hr : ds.results = 0 := congrArg Ledger.results hl
    exact KeepsAt.walkRoots_lands (hN hf) hfs (keepsAt_recordPaths _) (fun _ h => h.2)
      (fun _ _ h => h) (fun _ h _ => h) _ _ h0 (hr ▸ Int.le_refl 0)

example :
    (search smallEnv (some "/t".toList) (some "*".toList) searchIncluderoot 100).2.emitted.map
        SearchRecord.path =
      (search smallEnv (some "/t".toList) (some "*".toList) searchIncluderoot 100).2.hits.map
        (recordPath searchIncluderoot) :=
  search_record_paths smallEnv _ _ _ 100 smallFs_noHooks (by decide) fun _ => smallFs_plainNames

/-- On `/t`, holding `a` and `s/b`: the record of `s/b` holds `b`, not `s/b`; from the relative
root `t` under `SEARCH_INCLUDEROOT` the records start with the canonical `/t`, not with `t`; and
below `/` the record of `t` is `//t` while those below it start with `/t`, not `//t`. -/
theorem search_record_paths_not_relative :
    (search smallEnv (some "/t".toList) (some "*".toList) 0 100).2.emitted.map SearchRecord.path =
        ["a".toList, "s".toList, "b".toList] ∧
    (search smallEnv (some "t".toList) (some "*".toList) searchIncluderoot 100).2.emitted.map
        SearchRecord.path = ["/t/a".toList, "/t/s".toList, "/t/s/b".toList] ∧
    (search smallEnv (some "/".toList) (some "*".toList) searchIncluderoot 100).2.emitted.map
        SearchRecord.path = ["//t".toList, "/t/a".toList, "/t/s".toList, "/t/s/b".toList] := by
  decide

end SearchSyscall
