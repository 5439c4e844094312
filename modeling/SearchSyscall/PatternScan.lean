import SearchSyscall.Match

/-!
# The alternative loop over memory

`match_pathname` moves `patt` from alternative to alternative with `strchrskip(patt + 1, '|')`.
The list model `barPointers` ends the loop at an alternative that starts on the pattern's NUL; here
the loop runs over the bytes of memory from the pattern on (the pattern, its NUL, and whatever
bytes follow), as the C code does.

* `strchrMem` is `strchr` over memory (`cString` is the C string at a pointer), `patternPointers`
  the values `patt` takes, and `scanStarts` the pointers `patt + 1` from which the scans for the
  next `|` start, up to the first alternative whose attempt does not fail.
* `patternPointers_append_nul`: over a pattern `p` followed by its NUL, the loop first visits the
  pointers `barPointers p` names, and stops there unless the last of them is the NUL itself.
* `matchPathnameMem_eq`: when no alternative starts on the NUL, the memory loop returns what
  `matchPathname` returns, whatever follows the NUL.
* `scanStarts_append_nul`: when one does and every alternative fails, the scan after it starts on
  the byte past the NUL, and the loop goes on through the bytes there.
-/

namespace SearchSyscall

open SearchMatched

/-! ### Memory from a pointer -/

/-- `strchr(s, c)` over the bytes of memory from `s`, for a byte `c` other than NUL: the bytes from
the first `c`, or `NULL` at the first NUL (or at the end of the bytes modelled). -/
def strchrMem (c : Char) : List Char → Option (List Char)
  | [] => none
  | d :: rest => if d = c then some (d :: rest) else if d = '\x00' then none else strchrMem c rest

/-- The values of `patt` in `for (patt = pattern; patt; patt = strchrskip(patt + 1, '|'))` over the
bytes of memory from `pattern`, as long as no attempt returns; at most `fuel` of them. -/
def patternPointers : Nat → List Char → List (List Char)
  | 0, _ => []
  | fuel + 1, patt =>
    patt :: match strchrMem '|' patt.tail with
      | none => []
      | some q => patternPointers fuel q.tail

/-- The pointers `patt + 1` from which the scans for the next `|` start: one after each alternative
whose attempt fails, up to the first that does not. -/
def scanStarts (attempt : List Char → SearchMatched) : List (List Char) → List (List Char)
  | [] => []
  | patt :: rest =>
    if attempt (cString patt) = matchFailure then patt.tail :: scanStarts attempt rest else []

/-- `match_pathname(pathname, pattern, flags)` with the alternative loop run over the bytes `mem` of
memory from `pattern`. -/
def matchPathnameMem (pathname mem : List Char) : SearchMatched :=
  firstMatch (fun path => firstMatch (fun patt => matchAlternative path (cString patt))
    (patternPointers (mem.length + 1) mem)) (slashPointers pathname)

/-! ### The list model's scans -/

/-- `strchr` returns the suffix from a `c`. -/
theorem strchr_eq_some {c : Char} : ∀ {s q : List Char}, strchr s c = some q →
    ∃ u, q = c :: u ∧ c :: u <:+ s
  | [], _, h => by simp [strchr] at h
  | d :: s, q, h => by
    rw [strchr] at h
    split at h
    · rename_i hdc; cases h; subst hdc; exact ⟨s, rfl, List.suffix_refl _⟩
    · obtain ⟨u, rfl, hu⟩ := strchr_eq_some h
      exact ⟨u, rfl, hu.trans (List.suffix_cons d s)⟩

/-- The loop body is followed by the scan from `patt + 1`. -/
private theorem barPointers_eq (s : List Char) :
    barPointers s = s :: match strchrskip s.tail '|' with
      | none => []
      | some r => barPointers r := by
  rw [barPointers, afterBars_eq]
  cases strchrskip s.tail '|' <;> rfl

private theorem suffix_of_mem_afterBars {q : List Char} : ∀ {s : List Char}, q ∈ afterBars s → q <:+ s := by
  intro s
  induction s using afterBars.induct with
  | case1 => simp [afterBars]
  | case2 => rw [afterBars, List.mem_singleton]; rintro rfl; exact List.nil_suffix
  | case3 c rest ih =>
    rw [afterBars, List.mem_cons]
    rintro (rfl | h)
    · exact List.suffix_cons _ _
    · exact (ih h).trans ((List.suffix_cons c rest).trans (List.suffix_cons _ _))
  | case4 d rest h1 h2 ih =>
    rw [afterBars.eq_4 d rest h1 h2]
    exact fun h => (ih h).trans (List.suffix_cons d rest)

theorem suffix_of_mem_barPointers {q s : List Char} (h : q ∈ barPointers s) : q <:+ s := by
  rcases List.mem_cons.mp h with rfl | h
  · exact List.suffix_refl _
  · exact (suffix_of_mem_afterBars h).trans (List.tail_suffix s)

/-! ### A pattern followed by its NUL -/

section Nul

variable (junk : List Char)

theorem strchrMem_append_nul {c : Char} (hc : c ≠ '\x00') : ∀ {s : List Char}, '\x00' ∉ s →
    strchrMem c (s ++ '\x00' :: junk) = (strchr s c).map (· ++ '\x00' :: junk)
  | [], _ => by simp [strchrMem, strchr, Ne.symm hc]
  | d :: s, h => by
    have hd : d ≠ '\x00' := fun e => h (e ▸ .head _)
    by_cases hdc : d = c
    · simp [strchrMem, strchr, hdc]
    · simp only [List.cons_append, strchrMem, strchr, hdc, hd, if_false]
      exact strchrMem_append_nul hc fun e => h (.tail _ e)

/-- Over a pattern `s` followed by its NUL, the loop visits the pointers `barPointers s` names,
and nothing more unless the last of them is the NUL. -/
theorem patternPointers_append_nul : ∀ (fuel : Nat) (s : List Char), '\x00' ∉ s → s.length < fuel →
    ∃ rest, patternPointers fuel (s ++ '\x00' :: junk) =
      (barPointers s).map (· ++ '\x00' :: junk) ++ rest ∧ ([] ∉ barPointers s → rest = [])
  | fuel + 1, [], _, _ =>
    ⟨match strchrMem '|' junk with
      | none => []
      | some q => patternPointers fuel q.tail, by simp [patternPointers, barPointers, afterBars],
      by simp [barPointers]⟩
  | fuel + 1, c :: s, h, hlen => by
    have hs : '\x00' ∉ s := fun e => h (.tail _ e)
    rw [barPointers_eq]
    simp only [patternPointers, List.cons_append, List.tail_cons,
      strchrMem_append_nul junk (show '|' ≠ '\x00' by decide) hs, strchrskip]
    cases hq : strchr s '|' with
    | none => exact ⟨[], by simp, fun _ => rfl⟩
    | some q =>
      obtain ⟨u, rfl, hu⟩ := strchr_eq_some hq
      have hlen' : u.length < fuel := by
        have := hu.length_le; simp only [List.length_cons] at this hlen; omega
      obtain ⟨rest, e, hr⟩ :=
        patternPointers_append_nul fuel u (fun e => hs (hu.subset (.tail _ e))) hlen'
      refine ⟨rest, by simp [e], fun hnil => hr fun h' => hnil ?_⟩
      simp [h']

/-- When no alternative starts on the NUL, the loop over memory returns what `matchPathname`
returns, whatever bytes follow the NUL. -/
private theorem matchPathnameMem_eq (pathname : List Char) {p : List Char} (hnul : '\x00' ∉ p)
    (hend : [] ∉ barPointers p) :
    matchPathnameMem pathname (p ++ '\x00' :: junk) = matchPathname pathname p := by
  obtain ⟨rest, e, hr⟩ := patternPointers_append_nul junk ((p ++ '\x00' :: junk).length + 1) p hnul (by simp; omega)
  rw [matchPathnameMem, matchPathname, e, hr hend, List.append_nil]
  congr 1
  funext path
  rw [firstMatch_map]
  exact firstMatch_congr fun q hq => by
    rw [cString_append_nul junk fun e => hnul ((suffix_of_mem_barPointers hq).subset e)]

theorem scanStarts_append {attempt : List Char → SearchMatched} :
    ∀ {l : List (List Char)} (r : List (List Char)),
      (∀ x ∈ l, attempt (cString x) = matchFailure) →
      scanStarts attempt (l ++ r) = l.map List.tail ++ scanStarts attempt r
  | [], _, _ => rfl
  | x :: l, r, h => by
    rw [List.cons_append, scanStarts, if_pos (h x (.head _)),
      scanStarts_append r fun y hy => h y (.tail _ hy)]
    rfl

/-- When an alternative starts on the NUL and every alternative fails, a scan starts on the byte
past the NUL. -/
theorem scanStarts_append_nul {attempt : List Char → SearchMatched} {p : List Char}
    (hnul : '\x00' ∉ p) (hend : [] ∈ barPointers p)
    (hfail : ∀ q ∈ barPointers p, attempt q = matchFailure) :
    junk ∈ scanStarts attempt (patternPointers ((p ++ '\x00' :: junk).length + 1)
      (p ++ '\x00' :: junk)) := by
  obtain ⟨rest, e, -⟩ := patternPointers_append_nul junk ((p ++ '\x00' :: junk).length + 1) p hnul (by simp; omega)
  rw [e, scanStarts_append]
  · exact List.mem_append_left _ (List.mem_map.mpr ⟨_, List.mem_map_of_mem _ hend, rfl⟩)
  · simp only [List.mem_map]
    rintro _ ⟨q, hq, rfl⟩
    rw [cString_append_nul junk fun e => hnul ((suffix_of_mem_barPointers hq).subset e)]
    exact hfail q hq

end Nul

/-- `a|` against `/b`: the alternative `a` and the empty alternative on the NUL fail, and the scan
for the next `|` starts on the byte past the NUL, whatever it holds; when it holds `|b`, the loop
goes on to the alternative `b` and succeeds where `match_pathname` on the pattern alone fails. -/
theorem matchPathname_scans_past_nul :
    (∀ junk : List Char, junk ∈ scanStarts (matchAlternative "/b".toList)
      (patternPointers (("a|".toList ++ '\x00' :: junk).length + 1) ("a|".toList ++ '\x00' :: junk))) ∧
    matchPathname "/b".toList "a|".toList = matchFailure ∧
    matchPathnameMem "/b".toList ("a|".toList ++ '\x00' :: "|b".toList) = matchSuccess :=
  ⟨fun junk => scanStarts_append_nul junk (by decide) (by decide) (by decide), by decide, by decide⟩

end SearchSyscall
