import SearchSyscall.Hits
import SearchSyscall.Glob

/-!
# The walk's reports as a language

What the walk is for: report every entry of the tree below the root whose path relative to the
root lies in the language of the pattern.

* `globMatches` decides `L(a)`, and `inLang s p` decides `Lang(p)`: some `|`-separated
  alternative `a` of `p` has `s ∈ L(a)` when `a` starts with `/` (anchored), and otherwise has
  `v ∈ L(a)` for some suffix `v` of `s` that follows a `/` (`inLang_iff`).
* `treeEntries fs k loc rel` lists the entries `readdir` lists in the directories reached from
  `loc` through `DT_DIR` entries other than `.` and `..`, down to `k` levels, each with its path
  relative to the root.
* `matchPathname_eq_success_iff`: for a pattern of one alternative that does not start with `/`,
  has no `|` and fewer than 8 wildcards, `match_pathname` succeeds on a path starting with `/`
  exactly when the path is in the language.  The walk tries the suffixes after each `/` from the
  longest and stops at the first outcome other than `FAILURE`; a `PARTIAL` outcome would need fewer
  `/` than the pattern holds, and every later suffix has fewer still (`slashCount`).
* `reported_eq_filter`: for such a pattern the walk's reports are exactly the entries of the tree
  whose path is in the language.
-/

namespace SearchSyscall

open SearchMatched

/-! ### The glob language, decided -/

/-- Whether `s ∈ L(a)`: `*` takes any run of non-`/` bytes, `?` zero or one non-`/` byte, `[`
nothing, and every other byte itself. -/
def globMatches : List Char → List Char → Bool
  | s, [] => s.isEmpty
  | s, c :: a =>
    if c = '*' then (starTails s).any fun t => globMatches t a
    else if c = '?' then
      globMatches s a || match s with
        | d :: t => d != '/' && globMatches t a
        | [] => false
    else if c = '[' then false
    else match s with
      | d :: t => d == c && globMatches t a
      | [] => false

theorem globMatches_iff : ∀ (a s : List Char), globMatches s a = true ↔ InGlob s a
  | [], s => by simp [globMatches, InGlob, globTo_nil_iff]
  | c :: a, s => by
    have ih : ∀ t, globMatches t a = true ↔ InGlob t a := fun t => globMatches_iff a t
    by_cases h1 : c = '*'
    · subst h1
      simp only [globMatches, if_true, List.any_eq_true, ih, InGlob, globTo_star_iff]
      constructor
      · rintro ⟨t, ht, h⟩
        obtain ⟨u, rfl, hu⟩ := mem_starTails.mp ht
        exact .inr ⟨u, t, rfl, hu, h⟩
      · rintro (⟨-, h⟩ | ⟨u, t, rfl, hu, h⟩)
        · exact absurd h (List.cons_ne_nil _ _)
        · exact ⟨t, mem_starTails.mpr ⟨u, rfl, hu⟩, h⟩
    by_cases h2 : c = '?'
    · subst h2
      simp only [globMatches, if_neg h1, if_true, Bool.or_eq_true, ih, InGlob, globTo_qmark_iff,
        List.cons_ne_nil, and_false, false_or]
      apply or_congr_right
      cases s with
      | nil => simp
      | cons d t =>
        simp only [Bool.and_eq_true, bne_iff_ne, ne_eq, ih, InGlob, List.cons.injEq]
        constructor
        · rintro ⟨hd, h⟩; exact ⟨d, t, ⟨rfl, rfl⟩, hd, h⟩
        · rintro ⟨_, _, ⟨rfl, rfl⟩, hd, h⟩; exact ⟨hd, h⟩
    by_cases h3 : c = '['
    · subst h3
      simp [globMatches, InGlob, globTo_bracket_iff]
    simp only [globMatches, if_neg h1, if_neg h2, if_neg h3, InGlob, globTo_literal_iff h1 h2 h3,
      List.cons_ne_nil, and_false, false_or]
    cases s with
    | nil => simp
    | cons d t =>
      simp only [Bool.and_eq_true, beq_iff_eq, ih, InGlob, List.cons.injEq]
      constructor
      · rintro ⟨rfl, h⟩; exact ⟨t, ⟨rfl, rfl⟩, h⟩
      · rintro ⟨_, ⟨rfl, rfl⟩, h⟩; exact ⟨rfl, h⟩

/-! ### The language of a pattern -/

/-- The suffixes of `s` that follow a `/`, longest first. -/
def boundarySuffixes : List Char → List (List Char)
  | [] => []
  | c :: s => if c = '/' then s :: boundarySuffixes s else boundarySuffixes s

theorem mem_boundarySuffixes {v : List Char} :
    ∀ {s : List Char}, v ∈ boundarySuffixes s ↔ ∃ u, s = u ++ '/' :: v
  | [] => by simp [boundarySuffixes]
  | c :: s => by
    by_cases hc : c = '/'
    · subst hc
      simp only [boundarySuffixes, if_true, List.mem_cons, mem_boundarySuffixes]
      constructor
      · rintro (rfl | ⟨u, rfl⟩)
        · exact ⟨[], rfl⟩
        · exact ⟨'/' :: u, rfl⟩
      · rintro ⟨_ | ⟨d, u⟩, h⟩
        · exact .inl (List.cons.inj h).2.symm
        · exact .inr ⟨u, (List.cons.inj h).2⟩
    · simp only [boundarySuffixes, if_neg hc, mem_boundarySuffixes]
      constructor
      · rintro ⟨u, rfl⟩; exact ⟨c :: u, rfl⟩
      · rintro ⟨_ | ⟨d, u⟩, h⟩
        · exact absurd (List.cons.inj h).1 hc
        · exact ⟨u, (List.cons.inj h).2⟩

private theorem slashCount_lt_of_mem_boundarySuffixes {s v : List Char} (h : v ∈ boundarySuffixes s) :
    slashCount v < slashCount s := by
  obtain ⟨u, rfl⟩ := mem_boundarySuffixes.mp h
  simp [slashCount, List.count_append, List.count_cons]
  omega

/-- Whether `s ∈ Lang(p)`. -/
def inLang (s p : List Char) : Bool :=
  (p.splitOn '|').any fun a =>
    if a.head? = some '/' then globMatches s a
    else (boundarySuffixes s).any fun v => globMatches v a

private theorem inLang_iff (s p : List Char) :
    inLang s p = true ↔ ∃ a ∈ p.splitOn '|', (a.head? = some '/' → InGlob s a) ∧
      (a.head? ≠ some '/' → ∃ u v, s = u ++ '/' :: v ∧ InGlob v a) := by
  simp only [inLang, List.any_eq_true]
  apply exists_congr fun a => and_congr_right fun _ => ?_
  by_cases ha : a.head? = some '/'
  · simp [ha, globMatches_iff]
  · simp only [ha, if_false, ne_eq, not_false_eq_true, true_implies, false_implies, true_and,
      List.any_eq_true, globMatches_iff, mem_boundarySuffixes]
    constructor
    · rintro ⟨v, ⟨u, rfl⟩, h⟩; exact ⟨u, v, rfl, h⟩
    · rintro ⟨u, v, rfl, h⟩; exact ⟨v, ⟨u, rfl⟩, h⟩

/-- For a pattern of one alternative not starting with `/`, the suffixes after a `/`. -/
private theorem inLang_of_single {s p : List Char} (hbar : '|' ∉ p) (hanch : p.head? ≠ some '/') :
    inLang s p = true ↔ ∃ v ∈ boundarySuffixes s, InGlob v p := by
  have hsplit : p.splitOn '|' = [p] :=
    List.splitOnP_eq_single _ _ fun c hc h => hbar (by simpa using (beq_iff_eq.mp h) ▸ hc)
  simp [inLang, hsplit, hanch, globMatches_iff]

/-! ### `match_pathname` on one unanchored alternative -/

private theorem strchr_eq_none {s : List Char} {c : Char} (h : c ∉ s) : strchr s c = none := by
  induction s with
  | nil => rfl
  | cons d s ih =>
    have hd : d ≠ c := fun e => h (e ▸ .head _)
    simp only [strchr, if_neg hd]
    exact ih fun h' => h (.tail _ h')

theorem barPointers_of_not_mem {p : List Char} (hbar : '|' ∉ p) : barPointers p = [p] := by
  have ht : '|' ∉ p.tail := fun h => hbar (List.mem_of_mem_tail h)
  rw [barPointers, afterBars_eq, strchrskip, strchr_eq_none ht]
  rfl

theorem SearchMatched.orElse_failure (r : SearchMatched) : r.orElse matchFailure = r := by
  cases r <;> rfl

/-- The suffixes after each `/`, tried from the longest, succeed exactly when one of them is in
`L(p)`. -/
theorem firstMatch_suffixes {p : List Char} (hbar : '|' ∉ p) (hw : wildcardCount p < 8) :
    ∀ s : List Char, firstMatch (fun x => matchPathnameAt 0 x.tail p) (suffixesFrom '/' s) =
      matchSuccess ↔ ∃ v ∈ boundarySuffixes s, InGlob v p
  | [] => by simp [suffixesFrom, firstMatch, boundarySuffixes]
  | c :: s => by
    have ih := firstMatch_suffixes hbar hw s
    by_cases hc : c = '/'
    swap
    · simpa [suffixesFrom, boundarySuffixes, hc] using ih
    subst hc
    have hm := matchPathnameAt_spec p 0 s hbar (by omega)
    simp only [suffixesFrom, boundarySuffixes, if_true, firstMatch, List.tail_cons,
      List.mem_cons, exists_eq_or_imp]
    rcases hr : matchPathnameAt 0 s p with _ | _ | _ | _
    · rw [SearchMatched.failure_orElse, ih]
      have hs : ¬InGlob s p := fun h => by simp [hm.success_iff.mpr h] at hr
      simp [hs]
    · have hp : InGlobPrefix s p := hm.partial_iff.mp hr
      have hs : ¬InGlob s p := fun h => not_inGlobPrefix_of_inGlob h hp
      simp only [SearchMatched.orElse, reduceCtorEq, false_iff, hs, false_or, not_exists, not_and]
      intro v hv hg
      have h1 := slashCount_lt_of_mem_boundarySuffixes hv
      have h2 := slashCount_of_inGlob hg
      have h3 := slashCount_lt_of_inGlobPrefix hp
      omega
    · simp [SearchMatched.orElse, hm.success_iff.mp hr]
    · exact absurd hr hm.ne_overflow

/-- `match_pathname` on a path starting with `/` and a pattern of one alternative that does not
start with `/`, has no `|` and fewer than 8 wildcards succeeds exactly on `Lang(p)`. -/
theorem matchPathname_eq_success_iff {s p : List Char} (hs : s.head? = some '/')
    (hbar : '|' ∉ p) (hanch : p.head? ≠ some '/') (hw : wildcardCount p < 8) :
    matchPathname s p = matchSuccess ↔ inLang s p = true := by
  obtain ⟨_ | ⟨d, s⟩, rfl⟩ : ∃ t, s = t := ⟨s, rfl⟩
  · simp at hs
  obtain rfl : d = '/' := by simpa using hs
  rw [inLang_of_single hbar hanch, ← firstMatch_suffixes hbar hw]
  have hf : ∀ path, firstMatch (matchAlternative path) (barPointers p) =
      matchPathnameAt 0 path.tail p := by
    intro path
    rw [barPointers_of_not_mem hbar]
    simp only [firstMatch, matchAlternative, if_neg hanch, SearchMatched.orElse_failure]
  simp only [matchPathname, hf, slashPointers, List.tail_cons]
  rw [show suffixesFrom '/' ('/' :: s) = ('/' :: s) :: suffixesFrom '/' s by simp [suffixesFrom]]

/-! ### The entries of the tree -/

/-- The entries `es` of the directory `loc`, whose path relative to the root is `rel`, each followed
by the entries below it when it is a `DT_DIR` entry other than `.` and `..`, as `child` lists
them. -/
def dirEntries (child : Loc → List Char → List (Loc × List Char)) (loc : Loc) (rel : List Char) :
    List Dirent → List (Loc × List Char)
  | [] => []
  | e :: es =>
    ((loc ++ [e.name], rel ++ '/' :: e.name) ::
      if e.isDir ∧ e.name ≠ ['.'] ∧ e.name ≠ ['.', '.'] then
        child (loc ++ [e.name]) (rel ++ '/' :: e.name) else []) ++
    dirEntries child loc rel es

/-- The entries listed in the directories reached from `loc` through `DT_DIR` entries other than
`.` and `..`, down to `k` levels, with their paths relative to the root. -/
def treeEntries (fs : Fs) : Nat → Loc → List Char → List (Loc × List Char)
  | 0, _, _ => []
  | k + 1, loc, rel =>
    match fs.node loc with
    | none => []
    | some i => dirEntries (treeEntries fs k) loc rel (listing i.readdir)

section Single

variable {c : Search} (hrec : c.isrecursive = true) (hbar : '|' ∉ c.pattern)
  (hanch : c.pattern.head? ≠ some '/') (hw : wildcardCount c.pattern < 8)

include hrec hbar hanch hw

omit hrec hbar hanch hw in
theorem head_append_cons_slash {rel : List Char} (h : (rel ++ ['/']).head? = some '/')
    (n : List Char) : (rel ++ '/' :: n).head? = some '/' := by
  cases rel <;> simp_all

theorem entryReports_eq_filter {rep : Loc → List Char → List Loc}
    {tree : Loc → List Char → List (Loc × List Char)} (loc : Loc) (rel : List Char)
    (hrel : (rel ++ ['/']).head? = some '/')
    (hchild : ∀ n, rep (loc ++ [n]) (rel ++ '/' :: n) =
      ((tree (loc ++ [n]) (rel ++ '/' :: n)).filter fun x => inLang x.2 c.pattern).map Prod.fst) :
    ∀ es : List Dirent, entryReports c rep loc rel es =
      ((dirEntries tree loc rel es).filter fun x => inLang x.2 c.pattern).map Prod.fst
  | [] => rfl
  | e :: es => by
    have hm := matchPathname_eq_success_iff (head_append_cons_slash hrel e.name) hbar hanch hw
    have hd : descends c e (matchPathname (rel ++ '/' :: e.name) c.pattern) ↔
        e.isDir ∧ e.name ≠ ['.'] ∧ e.name ≠ ['.', '.'] := by
      simp [descends, hrec]
    simp only [entryReports, dirEntries, List.filter_append, List.map_append, List.filter_cons,
      entryReports_eq_filter loc rel hrel hchild es]
    congr 1
    by_cases hin : inLang (rel ++ '/' :: e.name) c.pattern = true
    · rw [if_pos (hm.mpr hin), if_pos hin]
      by_cases hdir : e.isDir ∧ e.name ≠ ['.'] ∧ e.name ≠ ['.', '.']
      · rw [if_pos (hd.mpr hdir), if_pos hdir, hchild]; rfl
      · rw [if_neg (mt hd.mp hdir), if_neg hdir]; rfl
    · rw [if_neg (mt hm.mp hin), if_neg hin]
      by_cases hdir : e.isDir ∧ e.name ≠ ['.'] ∧ e.name ≠ ['.', '.']
      · rw [if_pos (hd.mpr hdir), if_pos hdir, hchild]; rfl
      · rw [if_neg (mt hd.mp hdir), if_neg hdir]; rfl

/-- For a pattern of one alternative that does not start with `/`, has no `|` and fewer than 8
wildcards, the walk reports exactly the entries of the tree whose relative path is in `Lang(p)`,
in the order it lists them. -/
theorem reported_eq_filter :
    ∀ (k : Nat) (loc : Loc) (rel : List Char), (rel ++ ['/']).head? = some '/' →
      reported c k loc rel =
        ((treeEntries c.fs k loc rel).filter fun x => inLang x.2 c.pattern).map Prod.fst
  | 0, _, _, _ => rfl
  | k + 1, loc, rel, hrel => by
    rcases h : c.fs.node loc with _ | i <;> simp only [reported, treeEntries, h]
    · rfl
    · exact entryReports_eq_filter hrec hbar hanch hw loc rel hrel (fun n => reported_eq_filter k _ _
        (by rw [List.append_assoc]; exact head_append_cons_slash hrel _)) _

end Single

end SearchSyscall
