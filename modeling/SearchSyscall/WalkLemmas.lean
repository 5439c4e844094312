import SearchSyscall.Walk

/-!
# What the steps of the walk can do

* `matchedEntry_cases`: a matched entry either fails with a negative status, leaving the output
  fields as they were or as a copy that met an unwritable byte left them, or is reported: its
  record placed after the cursor, the count raised, and the walk stopped under
  `SEARCH_STOPATFIRST`.
* `searchLevels_ret`: without native search hooks, a level returns `0` or the status it leaves.
* `Keeps`: a pair of state predicates, one for the states the walk goes on from and one for the
  states it may stop in, kept by each elementary step; `Keeps.searchLevels` carries them through
  a whole walk, so that every invariant of the walk is proved by its steps alone.
-/

namespace SearchSyscall

open SearchMatched

/-! ### A matched entry -/

@[simp] theorem statRef_ledger (c : Search) (target : Loc) (ds : DirSearch) :
    (statRef c target ds).2.2.ledger = ds.ledger := rfl

@[simp] theorem statRef_path (c : Search) (target : Loc) (ds : DirSearch) :
    (statRef c target ds).2.2.path = ds.path := rfl

@[simp] theorem statRef_base (c : Search) (target : Loc) (ds : DirSearch) :
    (statRef c target ds).2.2.base = ds.base := rfl

theorem statRef_status_le (c : Search) (target : Loc) (ds : DirSearch) :
    (statRef c target ds).2.1 ≤ 0 := statTarget_snd_le c target

/-- A step that failed, with or without a copy that met an unwritable byte, leaves the count, the
records and the reports as they were. -/
theorem DirSearch.counts_eq_of_failed {ds ds' : DirSearch}
    (hl : ds'.ledger = ds.ledger ∨ ∃ t : List Char, t.length ≤ ds.len ∧
      ds'.ledger = { ds.ledger with mem := (ds.mem.copyToUser ds.next t).1,
                                    writes := ds.writes ++ [(ds.next, t.length)] }) :
    ds'.results = ds.results ∧ ds'.emitted = ds.emitted ∧ ds'.hits = ds.hits := by
  rcases hl with hl | ⟨t, -, hl⟩ <;>
    exact ⟨congrArg Ledger.results hl, congrArg Ledger.emitted hl, congrArg Ledger.hits hl⟩

/-- What `matchedEntry` can do. -/
theorem matchedEntry_cases (c : Search) (loc : Loc) (e : Dirent) (ds : DirSearch) :
    (∃ ds', matchedEntry c loc e ds = .error ds' ∧ ds'.status < 0 ∧ ds'.path = ds.path ∧
      ds'.base = ds.base ∧ (ds'.ledger = ds.ledger ∨ ∃ t : List Char, t.length ≤ ds.len ∧
        ds'.ledger = { ds.ledger with mem := (ds.mem.copyToUser ds.next t).1,
                                      writes := ds.writes ++ [(ds.next, t.length)] })) ∨
    (∃ ds' st, (recordText (searchRecord c.flags
        (if hasFlag c.flags searchIncluderoot then ds.path else e.name) st)).length + 2 ≤ ds.len ∧
      (∀ i : Nat, i < (recordText (searchRecord c.flags
        (if hasFlag c.flags searchIncluderoot then ds.path else e.name) st)).length + 2 →
          ds.mem.writable (ds.next + i)) ∧
      ds'.status = 0 ∧ ds'.path = ds.path ∧ ds'.base = ds.base ∧
      ds'.ledger = { (ds.wrote (searchRecord c.flags
        (if hasFlag c.flags searchIncluderoot then ds.path else e.name) st)).ledger with
          results := ds.results + 1, hits := ds.hits ++ [loc ++ [e.name]] } ∧
      matchedEntry c loc e ds =
        if hasFlag c.flags searchStopatfirst then .error ds' else .ok ds') := by
  unfold matchedEntry
  split
  · exact .inl ⟨_, rfl, Errno.neg_lt_zero _, rfl, rfl, .inl rfl⟩
  rename_i target _
  have hl := statRef_ledger c target ds
  have hp := statRef_path c target ds
  have hb := statRef_base c target ds
  have hs := statRef_status_le c target ds
  generalize statRef c target ds = res at hl hp hb hs ⊢
  obtain ⟨st, s, ds0⟩ := res
  dsimp only at hl hp hb hs ⊢
  by_cases h0 : s = 0
  swap
  · exact .inl ⟨{ ds0 with status := s }, by simp [h0], show s < 0 by omega, hp, hb, .inl hl⟩
  subst h0
  simp only [ne_eq, not_true_eq_false, if_false]
  obtain ⟨hres, hnext, hlen, hmem, hem, hhits, hwr⟩ := Ledger.mk.inj hl
  rw [← hp]
  set r := searchRecord c.flags (if hasFlag c.flags searchIncluderoot then ds0.path else e.name) st
  rcases copySearchResult_cases c.flags
    (if hasFlag c.flags searchIncluderoot then ds0.path else e.name) st { ds0 with status := 0 } with
    ⟨hc, hfit, hw⟩ | ⟨hneg, hc⟩ | ⟨hneg, hfit, hc⟩
  · refine .inr ⟨{ ({ ds0 with status := 0 } : DirSearch).wrote r with
        status := 0, results := ds.results + 1, hits := ds.hits ++ [loc ++ [e.name]] },
      st, hlen ▸ hfit, hnext ▸ hmem ▸ hw, rfl, rfl, hb, ?_, ?_⟩
    · simp only [DirSearch.ledger, DirSearch.wrote, hnext, hlen, hmem, hem, hwr]
    · rw [hc, if_neg (fun h => h rfl), hres, hhits]
      rfl
  · refine .inl ⟨_, if_pos (Int.ne_of_lt hneg), hneg, by rw [hc], ?_, .inl ?_⟩ <;> rw [hc]
    · exact hb
    · exact hl
  · refine .inl ⟨_, if_pos (Int.ne_of_lt hneg), hneg, by rw [hc], ?_,
      .inr ⟨recordText r ++ ['\x00', '\x00'], by rw [List.length_append, ← hlen]; exact hfit, ?_⟩⟩ <;>
      rw [hc]
    · exact hb
    · simp only [DirSearch.ledger, List.length_append, hres, hnext, hlen, hmem, hem, hhits, hwr]
      rfl

/-! ### A level's return value -/

/-- Without native search hooks, an opened directory's search returns the status it leaves. -/
private theorem searchOpened_ret {c : Search} {loc : Loc} {i : Inode} (hi : i.search = none)
    (child : DirSearch → Int × DirSearch) (fp : Nat) (ds : DirSearch) :
    (searchOpened c child loc i fp ds).1 = (searchOpened c child loc i fp ds).2.status := by
  unfold searchOpened
  split
  · rfl
  · rw [hi]; rfl

/-- Without native search hooks, a level returns `0` or the status it leaves. -/
theorem searchLevels_ret {c : Search} (hfs : c.fs.NoHooks) (k : Nat) (ds : DirSearch) :
    (searchLevels c k ds).1 = 0 ∨ (searchLevels c k ds).1 = (searchLevels c k ds).2.status := by
  cases k with
  | zero => exact .inl rfl
  | succ k =>
    rw [searchLevels_succ]
    split
    · rename_i e _
      by_cases h : skipsOpenError e <;> simp [h]
    · exact .inr (searchOpened_ret (hfs _ _ (c.fs.filpOpen_node ‹_›)) _ _ _)

/-! ### Invariants of the walk -/

/-- Where a step of the walk lands: in a state it goes on from, or in one it stops in. -/
def Lands (P Q : DirSearch → Prop) : Except DirSearch DirSearch → Prop
  | .ok ds => P ds
  | .error ds => Q ds

theorem Lands.bind {P P' Q : DirSearch → Prop} {x : Except DirSearch DirSearch}
    {f : DirSearch → Except DirSearch DirSearch} (hx : Lands P Q x)
    (hf : ∀ ds, P ds → Lands P' Q (f ds)) : Lands P' Q (x >>= f) := by
  cases x with
  | error ds => exact hx
  | ok ds => exact hf ds hx

theorem Lands.mono {P P' Q Q' : DirSearch → Prop} {x : Except DirSearch DirSearch}
    (hx : Lands P Q x) (hp : ∀ ds, P ds → P' ds) (hq : ∀ ds, Q ds → Q' ds) : Lands P' Q' x := by
  cases x with
  | error ds => exact hq ds hx
  | ok ds => exact hp ds hx

theorem Lands.and {P Q P' Q' : DirSearch → Prop} {x : Except DirSearch DirSearch}
    (h : Lands P Q x) (h' : Lands P' Q' x) : Lands (fun ds => P ds ∧ P' ds) (fun ds => Q ds ∧ Q' ds) x := by
  cases x with
  | ok ds => exact ⟨h, h'⟩
  | error ds => exact ⟨h, h'⟩

/-- A pair of state predicates kept by every elementary step of the walk: `P` of the states the walk
goes on from, `Q` of the states it may stop in. -/
structure Keeps (c : Search) (P Q : DirSearch → Prop) : Prop where
  stop : ∀ ds, P ds → Q ds
  status : ∀ ds (s : Int), s ≤ 0 → P ds → P { ds with status := s }
  setPath : ∀ ds p, P ds → P (ds.setPath p)
  take : ∀ ds (n : Nat), P ds → P { ds with path := ds.path.take n }
  base : ∀ ds (b : Nat), ds.base = 0 → P ds → P { ds with base := b }
  opened : ∀ ds, P ds → P (ds.newId.2.acquire (.file ds.fresh))
  close : ∀ ds fp, Q ds → Q (ds.release (.file fp))
  matched : ∀ loc e ds, P ds → Lands P Q (matchedEntry c loc e ds)
  /-- After a subdirectory, the walk goes on unless a match ends it under `SEARCH_STOPATFIRST`. -/
  resume : ∀ ds, Q ds → ¬(0 < ds.results ∧ hasFlag c.flags searchStopatfirst) →
    P { ds with status := 0 }
  /-- ... and stops with a match found. -/
  found : ∀ ds, Q ds → Q { ds with status := 0 }

namespace Keeps

variable {c : Search} {P Q : DirSearch → Prop}

theorem descend (h : Keeps c P Q) {child : DirSearch → Int × DirSearch}
    (hret : ∀ ds, (child ds).1 = 0 ∨ (child ds).1 = (child ds).2.status)
    (hchild : ∀ ds, P ds → Q (child ds).2) {ds : DirSearch} (hds : P ds) :
    Lands P Q (descend c child ds) := by
  have hq := hchild ds hds
  have h0 := hret ds
  unfold SearchSyscall.descend
  generalize child ds = res at hq h0 ⊢
  obtain ⟨r, ds'⟩ := res
  dsimp only at hq h0 ⊢
  by_cases hr : r = 0
  · subst hr
    simp only [ne_eq, not_true_eq_false, if_false]
    split
    · exact h.found _ hq
    · exact h.resume _ hq ‹_›
  · obtain rfl : r = ds'.status := h0.resolve_left hr
    simp only [ne_eq, hr, not_false_eq_true, if_true]
    exact hq

theorem searchEntries (h : Keeps c P Q) {child : DirSearch → Int × DirSearch}
    (hret : ∀ ds, (child ds).1 = 0 ∨ (child ds).1 = (child ds).2.status)
    (hchild : ∀ ds, P ds → Q (child ds).2) (loc : Loc) (dir : Nat) :
    ∀ (es : List Dirent) (ds : DirSearch), P ds → Lands P Q (searchEntries c child loc dir es ds)
  | [], _, hds => hds
  | e :: es, ds, hds => by
    have h1 : P ((ds.strcat ['/']).strcat e.name) := h.setPath _ _ (h.setPath _ _ hds)
    rw [SearchSyscall.searchEntries]
    refine Lands.bind (P := P) ?_ fun ds hds => Lands.bind (P := P) ?_ fun ds hds =>
      searchEntries h hret hchild loc dir es _ (h.take _ _ hds)
    · split
      · exact h.matched _ _ _ h1
      · exact h1
    · split
      · exact h.descend hret hchild hds
      · exact hds

/-- Two invariants of the steps together. -/
theorem and {P' Q' : DirSearch → Prop} (h : Keeps c P Q) (h' : Keeps c P' Q') :
    Keeps c (fun ds => P ds ∧ P' ds) (fun ds => Q ds ∧ Q' ds) where
  stop ds hp := ⟨h.stop ds hp.1, h'.stop ds hp.2⟩
  status ds s hs hp := ⟨h.status ds s hs hp.1, h'.status ds s hs hp.2⟩
  setPath ds p hp := ⟨h.setPath ds p hp.1, h'.setPath ds p hp.2⟩
  take ds n hp := ⟨h.take ds n hp.1, h'.take ds n hp.2⟩
  base ds b hb hp := ⟨h.base ds b hb hp.1, h'.base ds b hb hp.2⟩
  opened ds hp := ⟨h.opened ds hp.1, h'.opened ds hp.2⟩
  close ds fp hq := ⟨h.close ds fp hq.1, h'.close ds fp hq.2⟩
  matched loc e ds hp := (h.matched loc e ds hp.1).and (h'.matched loc e ds hp.2)
  resume ds hq hs := ⟨h.resume ds hq.1 hs, h'.resume ds hq.2 hs⟩
  found ds hq := ⟨h.found ds hq.1, h'.found ds hq.2⟩

private theorem stateOf_lands (h : Keeps c P Q) {x : Except DirSearch DirSearch} (hx : Lands P Q x) :
    Q (stateOf x) := by
  cases x with
  | ok ds => exact h.stop _ hx
  | error ds => exact hx

theorem readEntries (h : Keeps c P Q) {child : DirSearch → Int × DirSearch}
    (hret : ∀ ds, (child ds).1 = 0 ∨ (child ds).1 = (child ds).2.status)
    (hchild : ∀ ds, P ds → Q (child ds).2) (loc : Loc) :
    ∀ (chunks : List (Except Errno (List Dirent))) (ds : DirSearch), P ds →
      Lands P Q (readEntries c child loc chunks ds)
  | [], _, hds => h.status _ 0 (Int.le_refl 0) hds
  | .error e :: _, _, hds => h.stop _ (h.status _ _ (Int.le_of_lt (Errno.neg_lt_zero e)) hds)
  | .ok [] :: _, _, hds => h.status _ 0 (Int.le_refl 0) hds
  | .ok (_ :: _) :: rest, _, hds =>
    Lands.bind (h.searchEntries hret hchild loc _ _ _ (h.status _ 0 (Int.le_refl 0) hds))
      fun ds hds => readEntries h hret hchild loc rest ds hds

theorem searchOpened (h : Keeps c P Q) {child : DirSearch → Int × DirSearch}
    (hret : ∀ ds, (child ds).1 = 0 ∨ (child ds).1 = (child ds).2.status)
    (hchild : ∀ ds, P ds → Q (child ds).2) {loc : Loc} {i : Inode} (hi : i.search = none)
    (fp : Nat) {ds : DirSearch} (hds : P ds) : Q (searchOpened c child loc i fp ds).2 := by
  unfold SearchSyscall.searchOpened
  split
  · exact h.close _ _ (h.stop _ (h.status _ _ (Int.le_of_lt (Errno.neg_lt_zero _)) hds))
  · rw [hi]
    apply h.close
    have h1 := h.status _ 0 (Int.le_refl 0) (h.setPath _ ‹_› hds)
    refine h.stateOf_lands (h.readEntries hret hchild loc _ _ ?_)
    split
    · exact h.base _ _ ‹_› h1
    · exact h1

/-- Every invariant of the steps is one of the whole walk. -/
theorem searchLevels (h : Keeps c P Q) (hfs : c.fs.NoHooks) :
    ∀ (k : Nat) (ds : DirSearch), P ds → Q (SearchSyscall.searchLevels c k ds).2
  | 0, _, hds => h.stop _ hds
  | k + 1, ds, hds => by
    rw [searchLevels_succ]
    split
    · exact h.stop _ (h.status _ _ (Int.le_of_lt (Errno.neg_lt_zero _)) hds)
    · exact h.searchOpened (searchLevels_ret hfs k) (h.searchLevels hfs k)
        (hfs _ _ (c.fs.filpOpen_node ‹_›)) _ (h.opened _ (h.status _ 0 (Int.le_refl 0) hds))

end Keeps

end SearchSyscall
