import SearchSyscall.WalkLemmas
import SearchSyscall.Syscall

/-!
# What the roots loops can do

* `walkRoots_lands`: an invariant of the walk's steps holds at the end of the roots loop, where a
  jump to `exit` carries a negative status.
* `literalRoots_cons`: one root of the literal shortcut is skipped, fails with a negative status, or
  reports the node the pattern names below it.
-/

namespace SearchSyscall

/-- Where a roots loop lands: in a state to close, or at `goto exit` with a negative status. -/
def RootsLand (P : DirSearch → Prop) : Except (Int × DirSearch) DirSearch → Prop
  | .ok ds => P ds
  | .error (st, ds) => st < 0 ∧ P ds

theorem RootsLand.mono {P P' : DirSearch → Prop} (h : ∀ ds, P ds → P' ds) :
    ∀ {o : Except (Int × DirSearch) DirSearch}, RootsLand P o → RootsLand P' o
  | .ok ds, ho => h ds ho
  | .error (_, ds), ho => ⟨ho.1, h ds ho.2⟩

theorem RootsLand.and {P P' : DirSearch → Prop} :
    ∀ {o : Except (Int × DirSearch) DirSearch}, RootsLand P o → RootsLand P' o →
      RootsLand (fun ds => P ds ∧ P' ds) o
  | .ok _, h, h' => ⟨h, h'⟩
  | .error (_, _), h, h' => ⟨h.1, h.2, h'.2⟩

/-- A roots loop that does not fail leaves a state to close. -/
theorem RootsLand.finish {P : DirSearch → Prop} {o : Except (Int × DirSearch) DirSearch}
    (ho : RootsLand P o) (hok : 0 ≤ (finish o).1) : ∃ ds, o = .ok ds ∧ P ds := by
  cases o with
  | ok ds => exact ⟨ds, rfl, ho⟩
  | error r =>
    obtain ⟨st, ds⟩ := r
    exact absurd hok (by simp only [SearchSyscall.finish]; exact Int.not_le.mpr ho.1)

/-! ### The walk over the roots -/

section WalkRoots

variable {c : Search} {P Q : DirSearch → Prop}

/-- An invariant of the walk's steps, kept from one root to the next, holds where the roots loop
ends. -/
theorem walkRoots_lands (h : Keeps c P Q) (hfs : c.fs.NoHooks)
    (hstat : ∀ ds, Q ds → ds.status ≤ 0)
    (hroot : ∀ ds r, P ds → P { ds.setPath r with base := 0 })
    (hnext : ∀ ds, Q ds → ¬(0 < ds.results ∧ hasFlag c.flags searchStopatfirst) → P ds) :
    ∀ (roots : List (List Char)) (ds : DirSearch), P ds → RootsLand Q (walkRoots c roots ds)
  | [], _, hds => h.stop _ hds
  | r :: rs, ds, hds => by
    have hq : Q (searchDirectory c 0 { ds.setPath r with base := 0 }).2 :=
      h.searchLevels hfs _ _ (hroot ds r hds)
    have hret : (searchDirectory c 0 { ds.setPath r with base := 0 }).1 = 0 ∨
        (searchDirectory c 0 { ds.setPath r with base := 0 }).1 =
          (searchDirectory c 0 { ds.setPath r with base := 0 }).2.status :=
      searchLevels_ret hfs _ _
    rw [walkRoots]
    generalize searchDirectory c 0 { ds.setPath r with base := 0 } = res at hq hret ⊢
    obtain ⟨st, ds'⟩ := res
    dsimp only at hq hret ⊢
    split
    · exact ⟨by have := hstat _ hq; omega, hq⟩
    · split
      · exact hq
      · exact walkRoots_lands h hfs hstat hroot hnext rs ds' (hnext ds' hq ‹_›)

end WalkRoots

/-! ### The literal shortcut -/

/-- What the literal shortcut does with one root. -/
theorem literalRoots_cons (c : Search) (r : List Char) (rs : List (List Char)) (ds : DirSearch) :
    (∃ ds', literalRoots c (r :: rs) ds = literalRoots c rs ds' ∧ ds'.ledger = ds.ledger ∧
      (c.fs.resolve r = .error enoent ∨
        ∃ root, c.fs.resolve r = .ok root ∧ c.fs.lookup root root c.pattern = .error enoent)) ∨
    (∃ st ds', literalRoots c (r :: rs) ds = .error (st, ds') ∧ st < 0 ∧
      (ds'.ledger = ds.ledger ∨ ∃ t : List Char, t.length ≤ ds.len ∧
        ds'.ledger = { ds.ledger with mem := (ds.mem.copyToUser ds.next t).1,
                                      writes := ds.writes ++ [(ds.next, t.length)] })) ∨
    (∃ ds' root target st, c.fs.resolve r = .ok root ∧
      c.fs.lookup root root c.pattern = .ok target ∧
      (recordText (searchRecord c.flags
        (if hasFlag c.flags searchIncluderoot then r ++ '/' :: c.pattern else '/' :: c.pattern)
          st)).length + 2 ≤ ds.len ∧
      (∀ i : Nat, i < (recordText (searchRecord c.flags
        (if hasFlag c.flags searchIncluderoot then r ++ '/' :: c.pattern else '/' :: c.pattern)
          st)).length + 2 → ds.mem.writable (ds.next + i)) ∧
      ds'.ledger = { (ds.wrote (searchRecord c.flags
        (if hasFlag c.flags searchIncluderoot then r ++ '/' :: c.pattern else '/' :: c.pattern)
          st)).ledger with results := ds.results + 1, hits := ds.hits ++ [target] } ∧
      literalRoots c (r :: rs) ds =
        if hasFlag c.flags searchStopatfirst then .ok ds' else literalRoots c rs ds') := by
  rw [literalRoots]
  rcases hres : c.fs.resolve r with e | root
  · dsimp only
    by_cases he : e = enoent
    · exact .inl ⟨_, if_pos he, rfl, .inl (by rw [he])⟩
    · exact .inr (.inl ⟨e.neg, _, if_neg he, Errno.neg_lt_zero e, .inl rfl⟩)
  dsimp only
  rcases hlk : c.fs.lookup root root c.pattern with e | target
  · dsimp only
    by_cases he : e = enoent
    · exact .inl ⟨_, if_pos he, ledger_literalPath c r ds, .inr ⟨root, rfl, by rw [hlk, he]⟩⟩
    · exact .inr (.inl ⟨e.neg, _, if_neg he, Errno.neg_lt_zero e, .inl (ledger_literalPath c r ds)⟩)
  dsimp only
  have hl := statRef_ledger c target (literalPath c r ds)
  have hp := statRef_path c target (literalPath c r ds)
  have hb := statRef_base c target (literalPath c r ds)
  have hs := statRef_status_le c target (literalPath c r ds)
  generalize statRef c target (literalPath c r ds) = res at hl hp hb hs ⊢
  obtain ⟨st, s, Y⟩ := res
  simp only [ledger_literalPath, literalPath_path, literalPath_base] at hl hp hb
  dsimp only at hs ⊢
  by_cases h0 : s ≠ 0
  · exact .inr (.inl ⟨s, _, if_pos h0, by omega, .inl hl⟩)
  rw [if_neg h0, hp, hb, List.drop_left]
  obtain ⟨hres, hnext, hlen, hmem, hem, hhits, hwr⟩ := Ledger.mk.inj hl
  set rec := searchRecord c.flags
    (if hasFlag c.flags searchIncluderoot then r ++ '/' :: c.pattern else '/' :: c.pattern) st
  rcases copySearchResult_cases c.flags
    (if hasFlag c.flags searchIncluderoot then r ++ '/' :: c.pattern else '/' :: c.pattern) st Y with
    ⟨hc, hfit, hw⟩ | ⟨hneg, hc⟩ | ⟨hneg, hfit, hc⟩
  · refine .inr (.inr ⟨{ Y.wrote rec with results := Y.results + 1, hits := Y.hits ++ [target] },
      root, target, st, rfl, hlk, hlen ▸ hfit, hnext ▸ hmem ▸ hw, ?_, ?_⟩)
    · simp only [DirSearch.ledger, DirSearch.wrote, hres, hnext, hlen, hmem, hem, hhits, hwr]
    · rw [hc]
      rfl
  · exact .inr (.inl ⟨_, _, if_pos (Int.ne_of_lt hneg), hneg, .inl (by rw [hc]; exact hl)⟩)
  · refine .inr (.inl ⟨_, _, if_pos (Int.ne_of_lt hneg), hneg,
      .inr ⟨recordText rec ++ ['\x00', '\x00'], by rw [List.length_append, ← hlen]; exact hfit, ?_⟩⟩)
    rw [hc]
    simp only [DirSearch.ledger, List.length_append, hres, hnext, hlen, hmem, hem, hhits, hwr]
    rfl

end SearchSyscall
