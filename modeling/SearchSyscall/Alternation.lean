import SearchSyscall.Lang

/-!
# Patterns of several alternatives

`match_pathname` runs `__match_pathname` on the pairs of a `/` boundary of the path, from the
longest suffix, and an alternative of the pattern, from the left, and returns the first outcome that
is not `FAILURE`.  Each call is handed the pattern string from the alternative on, so it reads past
the alternative's end: a `|` there ends the match when the path is used up and is compared as a
literal byte otherwise.

* `matchPathnameAt_append_bar`: on a path without `|`, what follows the alternative changes
  nothing, and `firstMatch_barPointers_intercalate`: on `a₁|…|aₖ` with nonempty alternatives the
  alternative loop tries each alternative once, from the left.
* `langOutcome v a` is the outcome the languages prescribe for the alternative `a` tried at the
  suffix `v` after a `/`: `SUCCESS` on `L(a)`, `PARTIAL` on its prefix language, `FAILURE`
  otherwise, an alternative starting with `/` being matched against `/v`.
* `matchPathname_eq_firstLangOutcome`: `match_pathname` returns the first of these outcomes that is
  not `FAILURE`.  `SUCCESS` is then not membership in `Lang(p)`: a `PARTIAL` of an earlier pair hides
  a later `SUCCESS`.  Without `/` in the alternatives this cannot happen, and `SUCCESS` is
  `s ∈ Lang(p)` (`matchPathname_eq_success_iff_inLang`).
* `matchPathname_alternatives` states the law for alternatives that do not start with `/`.  An
  anchored alternative is tried at every `/` of the path, not only at the first, the defect the
  comment at line 1098 names: `matchPathname_anchored_deeper`.
-/

namespace SearchSyscall

open SearchMatched

/-! ### `firstMatch` over lists -/

section SuccessOrFailure

variable {α : Type} {f : α → SearchMatched} {l : List α}

/-- Attempts that succeed or fail give a first outcome that succeeds or fails. -/
theorem firstMatch_success_or_failure (h : ∀ x ∈ l, f x = matchSuccess ∨ f x = matchFailure) :
    firstMatch f l = matchSuccess ∨ firstMatch f l = matchFailure := by
  rcases firstMatch_cases f l with e | ⟨x, hx, e⟩
  · exact .inr e
  · exact e ▸ h x hx

/-- Attempts that succeed or fail: the first outcome succeeds when any attempt does. -/
theorem firstMatch_eq_success_iff (h : ∀ x ∈ l, f x = matchSuccess ∨ f x = matchFailure) :
    firstMatch f l = matchSuccess ↔ ∃ x ∈ l, f x = matchSuccess := by
  constructor
  · intro e
    rcases firstMatch_cases f l with e' | ⟨x, hx, e'⟩
    · simp [e'] at e
    · exact ⟨x, hx, e'.trans e⟩
  · rintro ⟨x, hx, e⟩
    refine (firstMatch_success_or_failure h).resolve_right fun e' => ?_
    simp [firstMatch_eq_failure.mp e' x hx] at e

end SuccessOrFailure

/-! ### What follows an alternative -/

/-- On a path without `|`, a `|` of the pattern acts as its end: `SUCCESS` at the end of the path,
and otherwise a literal byte that the path does not hold. -/
theorem matchPathnameAt_append_bar (rest : List Char) :
    ∀ (a : List Char) (n : Nat) (s : List Char), '|' ∉ s →
      matchPathnameAt n s (a ++ '|' :: rest) = matchPathnameAt n s a
  | a, n, s, hs => by
    by_cases hn : 8 ≤ n
    · rw [matchPathnameAt_of_le hn, matchPathnameAt_of_le hn]
    have hn' : n < 8 := by omega
    match a with
    | [] =>
      rw [List.nil_append, matchPathnameAt_literal hn' (by decide) (by decide) (by decide),
        matchPathnameAt_nil hn']
      cases s with
      | nil => simp
      | cons d t => simp [show d ≠ '|' from fun h => hs (h ▸ .head _)]
    | x :: a =>
      have ih : ∀ m t, '|' ∉ t → matchPathnameAt m t (a ++ '|' :: rest) = matchPathnameAt m t a :=
        fun m t ht => matchPathnameAt_append_bar rest a m t ht
      have hs' : '|' ∉ s.tail := fun h => hs (List.mem_of_mem_tail h)
      rw [List.cons_append]
      by_cases h1 : x = '*'
      · subst h1
        rw [matchPathnameAt_star hn', matchPathnameAt_star hn', matchStar_eq_firstMatch,
          matchStar_eq_firstMatch]
        refine firstMatch_congr fun t ht => ih _ t fun h => hs ?_
        obtain ⟨u, rfl, -⟩ := mem_starTails.mp ht
        exact List.mem_append_right u h
      by_cases h2 : x = '?'
      · subst h2
        rw [matchPathnameAt_qmark hn', matchPathnameAt_qmark hn', ih (n + 1) _ hs', ih n s hs]
      by_cases h3 : x = '['
      · subst h3
        rw [matchPathnameAt_bracket hn', matchPathnameAt_bracket hn']
      rw [matchPathnameAt_literal hn' h1 h2 h3, matchPathnameAt_literal hn' h1 h2 h3]
      cases s with
      | nil => rfl
      | cons d t => simp only [ih n t hs']

private theorem matchAlternative_append_bar {path a : List Char} (ha : a ≠ []) (hpath : '|' ∉ path)
    (q : List Char) : matchAlternative path (a ++ '|' :: q) = matchAlternative path a := by
  obtain ⟨c, a, rfl⟩ := List.exists_cons_of_ne_nil ha
  simp only [matchAlternative, List.cons_append, List.head?_cons]
  rw [← List.cons_append, matchPathnameAt_append_bar q _ 0 _ hpath,
    matchPathnameAt_append_bar q _ 0 _ fun h => hpath (List.mem_of_mem_tail h)]

/-! ### The alternative loop -/

/-- The scan for the next `|` passes over the other bytes. -/
private theorem afterBars_append_bar {a : List Char} (ha : '|' ∉ a) (q : List Char) :
    afterBars (a ++ '|' :: q) = afterBars ('|' :: q) := by
  induction a with
  | nil => rfl
  | cons c a ih =>
    have hc : c ≠ '|' := fun h => ha (h ▸ .head _)
    rw [List.cons_append, afterBars.eq_4 c _ (fun h => absurd h hc) (fun _ _ h => absurd h hc),
      ih fun h => ha (.tail _ h)]

/-- After a nonempty alternative the loop resumes at the next one. -/
private theorem barPointers_append_bar {a q : List Char} (ha : a ≠ []) (hbar : '|' ∉ a) (hq : q ≠ []) :
    barPointers (a ++ '|' :: q) = (a ++ '|' :: q) :: barPointers q := by
  obtain ⟨c, a, rfl⟩ := List.exists_cons_of_ne_nil ha
  obtain ⟨d, q, rfl⟩ := List.exists_cons_of_ne_nil hq
  rw [barPointers, List.cons_append, List.tail_cons, afterBars_append_bar fun h => hbar (.tail _ h)]
  rfl

/-- On `a₁|…|aₖ` with nonempty alternatives and a path without `|`, the alternative loop tries
`a₁`, …, `aₖ` in turn. -/
theorem firstMatch_barPointers_intercalate {path : List Char} (hpath : '|' ∉ path) :
    ∀ {as : List (List Char)}, as ≠ [] → (∀ a ∈ as, a ≠ [] ∧ '|' ∉ a) →
      firstMatch (matchAlternative path) (barPointers (['|'].intercalate as)) =
        firstMatch (matchAlternative path) as
  | [a], _, h => by simp [List.intercalate, barPointers_of_not_mem (h a (.head _)).2]
  | a :: b :: as, _, h => by
    have ha := h a (.head _)
    have hq : ['|'].intercalate (b :: as) ≠ [] := by
      cases as <;> simp [List.intercalate, List.intersperse, (h b (.tail _ (.head _))).1]
    rw [show ['|'].intercalate (a :: b :: as) = a ++ '|' :: ['|'].intercalate (b :: as) by
        simp [List.intercalate, List.intersperse],
      barPointers_append_bar ha.1 ha.2 hq, firstMatch, firstMatch,
      matchAlternative_append_bar ha.1 hpath,
      firstMatch_barPointers_intercalate hpath (List.cons_ne_nil _ _) fun x hx => h x (.tail _ hx)]

/-! ### The outcome the languages prescribe -/

/-- Whether the path runs out where the pattern continues with `/`: `s ∈ L(a[0..j))` for some `j`
with `a[j] = '/'`. -/
def globPrefixMatches (s a : List Char) : Bool :=
  (List.range a.length).any fun j => a[j]? == some '/' && globMatches s (a.take j)

theorem globPrefixMatches_iff (s a : List Char) : globPrefixMatches s a = true ↔ InGlobPrefix s a := by
  simp only [inGlobPrefix_iff, globPrefixMatches, List.any_eq_true, List.mem_range,
    Bool.and_eq_true, beq_iff_eq, globMatches_iff]
  constructor
  · rintro ⟨j, -, h⟩; exact ⟨j, h⟩
  · rintro ⟨j, hj, h⟩
    refine ⟨j, ?_, hj, h⟩
    by_contra hlt
    rw [List.getElem?_eq_none (by omega)] at hj
    cases hj

/-- The outcome of matching `w` against `a` that the languages prescribe. -/
def globOutcome (w a : List Char) : SearchMatched :=
  if globMatches w a then matchSuccess
  else if globPrefixMatches w a then matchPartial
  else matchFailure

private theorem MatchSpec.eq_globOutcome {r : SearchMatched} {w a : List Char} (h : MatchSpec r w a) :
    r = globOutcome w a := by
  unfold globOutcome
  by_cases hs : InGlob w a
  · rw [if_pos ((globMatches_iff a w).mpr hs)]; exact h.success_iff.mpr hs
  rw [if_neg (mt (globMatches_iff a w).mp hs)]
  by_cases hp : InGlobPrefix w a
  · rw [if_pos ((globPrefixMatches_iff w a).mpr hp)]; exact h.partial_iff.mpr hp
  rw [if_neg (mt (globPrefixMatches_iff w a).mp hp)]
  cases r
  · rfl
  · exact absurd (h.partial_iff.mp rfl) hp
  · exact absurd (h.success_iff.mp rfl) hs
  · exact absurd rfl h.ne_overflow

/-- The outcome the languages prescribe for the alternative `a` tried at the suffix `v` after a `/`:
an alternative starting with `/` is matched against `/v`, any other against `v`. -/
def langOutcome (v a : List Char) : SearchMatched :=
  globOutcome (if a.head? = some '/' then '/' :: v else v) a

/-- The first outcome other than `FAILURE` over the suffixes of `s` after a `/`, from the longest,
and the alternatives `as`, from the left. -/
def firstLangOutcome (s : List Char) (as : List (List Char)) : SearchMatched :=
  firstMatch (fun v => firstMatch (langOutcome v) as) (boundarySuffixes s)

private theorem matchAlternative_eq_langOutcome {v a : List Char} (hbar : '|' ∉ a)
    (hw : wildcardCount a < 8) : matchAlternative ('/' :: v) a = langOutcome v a := by
  unfold matchAlternative langOutcome
  split <;> exact (matchPathnameAt_spec a 0 _ hbar (by omega)).eq_globOutcome

/-! ### `match_pathname` -/

theorem suffixesFrom_slash : ∀ s : List Char,
    suffixesFrom '/' s = (boundarySuffixes s).map ('/' :: ·)
  | [] => rfl
  | c :: s => by
    by_cases hc : c = '/'
    · subst hc; simp [suffixesFrom, boundarySuffixes, suffixesFrom_slash s]
    · simp [suffixesFrom, boundarySuffixes, hc, suffixesFrom_slash s]

theorem slashPointers_eq_map {s : List Char} (hs : s.head? = some '/') :
    slashPointers s = (boundarySuffixes s).map ('/' :: ·) := by
  obtain ⟨_ | ⟨d, s⟩, rfl⟩ : ∃ t, s = t := ⟨s, rfl⟩
  · simp at hs
  obtain rfl : d = '/' := by simpa using hs
  simp [slashPointers, boundarySuffixes, suffixesFrom_slash]

section Alternatives

variable {s : List Char} {as : List (List Char)} (hs : s.head? = some '/') (hsbar : '|' ∉ s)
  (has : as ≠ []) (halt : ∀ a ∈ as, a ≠ [] ∧ '|' ∉ a ∧ wildcardCount a < 8)

include hs hsbar has halt

/-- `match_pathname` on a path starting with `/` without `|`, and a pattern `a₁|…|aₖ` of nonempty
alternatives with fewer than 8 wildcards each, returns the first outcome the languages prescribe
that is not `FAILURE`. -/
theorem matchPathname_eq_firstLangOutcome :
    matchPathname s (['|'].intercalate as) = firstLangOutcome s as := by
  rw [matchPathname, slashPointers_eq_map hs, firstMatch_map, firstLangOutcome]
  refine firstMatch_congr fun v hv => ?_
  have hv : '|' ∉ '/' :: v := by
    obtain ⟨u, rfl⟩ := mem_boundarySuffixes.mp hv
    exact fun h => hsbar (List.mem_append_right u h)
  rw [firstMatch_barPointers_intercalate hv has fun a ha => ⟨(halt a ha).1, (halt a ha).2.1⟩]
  exact firstMatch_congr fun a ha => matchAlternative_eq_langOutcome (halt a ha).2.1 (halt a ha).2.2

/-- Without `/` in the alternatives, `match_pathname` succeeds exactly on `Lang(p)`. -/
theorem matchPathname_eq_success_iff_inLang (hslash : ∀ a ∈ as, '/' ∉ a) :
    matchPathname s (['|'].intercalate as) = matchSuccess ↔
      inLang s (['|'].intercalate as) = true := by
  have hhead : ∀ a ∈ as, a.head? ≠ some '/' := fun a ha h => hslash a ha (List.mem_of_mem_head? h)
  have hlang : ∀ v, ∀ a ∈ as, langOutcome v a = if globMatches v a then matchSuccess else matchFailure := by
    intro v a ha
    have hpre : globPrefixMatches v a = false := by
      rw [Bool.eq_false_iff, Ne, globPrefixMatches_iff, inGlobPrefix_iff]
      rintro ⟨j, hj, -⟩
      exact hslash a ha (List.getElem?_mem hj)
    simp only [langOutcome, if_neg (hhead a ha), globOutcome, hpre]
    rfl
  have hsf : ∀ v, ∀ a ∈ as, langOutcome v a = matchSuccess ∨ langOutcome v a = matchFailure := by
    intro v a ha; rw [hlang v a ha]; split <;> simp
  have hsplit : (['|'].intercalate as).splitOn '|' = as :=
    List.splitOn_intercalate as '|' (fun a ha => (halt a ha).2.1) has
  rw [matchPathname_eq_firstLangOutcome hs hsbar has halt, firstLangOutcome,
    firstMatch_eq_success_iff fun v _ => firstMatch_success_or_failure (hsf v)]
  simp only [firstMatch_eq_success_iff (hsf _), inLang, hsplit, List.any_eq_true]
  constructor
  · rintro ⟨v, hv, a, ha, e⟩
    rw [hlang v a ha] at e
    refine ⟨a, ha, ?_⟩
    rw [if_neg (hhead a ha)]
    exact List.any_eq_true.mpr ⟨v, hv, by split at e <;> simp_all⟩
  · rintro ⟨a, ha, e⟩
    rw [if_neg (hhead a ha), List.any_eq_true] at e
    obtain ⟨v, hv, e⟩ := e
    exact ⟨v, hv, a, ha, by rw [hlang v a ha, if_pos e]⟩

/-- `match_pathname` on `a₁|…|aₖ` whose alternatives do not start with `/` returns the first outcome
other than `FAILURE` of the alternatives at the suffixes after each `/`; when no alternative holds a
`/`, it succeeds exactly on `Lang(p)`. -/
theorem matchPathname_alternatives (hanch : ∀ a ∈ as, a.head? ≠ some '/') :
    matchPathname s (['|'].intercalate as) =
        firstMatch (fun v => firstMatch (globOutcome v) as) (boundarySuffixes s) ∧
      ((∀ a ∈ as, '/' ∉ a) → (matchPathname s (['|'].intercalate as) = matchSuccess ↔
        inLang s (['|'].intercalate as) = true)) := by
  refine ⟨?_, matchPathname_eq_success_iff_inLang hs hsbar has halt⟩
  rw [matchPathname_eq_firstLangOutcome hs hsbar has halt, firstLangOutcome]
  refine firstMatch_congr fun v _ => firstMatch_congr fun a ha => ?_
  rw [langOutcome, if_neg (hanch a ha)]

end Alternatives

/-- The theorem at `a/b|a` against `/a`, where the first outcome is the `PARTIAL` of `a/b`. -/
theorem matchPathname_alternatives_partial_first :
    matchPathname "/a".toList (['|'].intercalate ["a/b".toList, "a".toList]) =
        firstMatch (fun v => firstMatch (globOutcome v) ["a/b".toList, "a".toList])
          (boundarySuffixes "/a".toList) ∧
      ((∀ a ∈ ["a/b".toList, "a".toList], '/' ∉ a) →
        (matchPathname "/a".toList (['|'].intercalate ["a/b".toList, "a".toList]) = matchSuccess ↔
          inLang "/a".toList (['|'].intercalate ["a/b".toList, "a".toList]) = true)) :=
  matchPathname_alternatives (by decide) (by decide) (by decide) (by decide) (by decide)

/-- Two ways `SUCCESS` differs from `Lang(p)`: the `PARTIAL` of `a/b` hides the later `a`, and the
`|` of the pattern matches the `|` of the file name `a|b`. -/
theorem matchPathname_alternatives_counterexamples :
    (matchPathname "/a".toList "a/b|a".toList = matchPartial ∧
      inLang "/a".toList "a/b|a".toList = true) ∧
    (matchPathname "/a|b".toList "a|b".toList = matchSuccess ∧
      inLang "/a|b".toList "a|b".toList = false) := by
  decide

/-! ### Anchored alternatives

The comment above `match_pathname` (line 1098) says it "needs to handle leading '/' for anchor":
the loop over the `/` boundaries of the path does not skip anchored alternatives, so `/t` is tried
at every `/` and succeeds on every path that ends in `/t`, while an anchored pattern is meant to
match from the root only. -/

/-- A pattern of plain bytes without `/` matches itself and nothing else. -/
private theorem matchPathnameAt_plain : ∀ (t v : List Char),
    (∀ c ∈ t, c ≠ '/' ∧ c ≠ '*' ∧ c ≠ '?' ∧ c ≠ '[' ∧ c ≠ '|') →
      matchPathnameAt 0 v t = if v = t then matchSuccess else matchFailure
  | [], v, _ => matchPathnameAt_nil (by decide) v
  | c :: t, v, h => by
    obtain ⟨h0, h1, h2, h3, h4⟩ := h c (.head _)
    rw [matchPathnameAt_literal (by decide) h1 h2 h3, if_neg fun e => h4 e.1,
      if_neg fun e => h0 e.1]
    cases v with
    | nil => simp
    | cons d v =>
      simp only [matchPathnameAt_plain t v fun x hx => h x (.tail _ hx), List.cons.injEq]
      by_cases hd : d = c <;> simp [hd]

/-- The anchored pattern `/t` succeeds on every path `u/t` below the top, which is not in `Lang`:
`match_pathname` tries it at the last `/` as well as at the first. -/
private theorem matchPathname_anchored_deeper {u t : List Char} (hu : u.head? = some '/')
    (ht : ∀ c ∈ t, c ≠ '/' ∧ c ≠ '*' ∧ c ≠ '?' ∧ c ≠ '[' ∧ c ≠ '|') :
    matchPathname (u ++ '/' :: t) ('/' :: t) = matchSuccess ∧
      inLang (u ++ '/' :: t) ('/' :: t) = false := by
  have hbar : '|' ∉ '/' :: t := by
    rintro (_ | ⟨_, h⟩)
    exact (ht '|' h).2.2.2.2 rfl
  have hslash : slashCount ('/' :: t) < slashCount (u ++ '/' :: t) := by
    cases u with
    | nil => cases hu
    | cons c u =>
      obtain rfl : c = '/' := Option.some_inj.mp hu
      simp only [slashCount, List.cons_append, List.count_cons_self, List.count_append]
      omega
  have hout : ∀ v, matchAlternative ('/' :: v) ('/' :: t) =
      if v = t then matchSuccess else matchFailure := by
    intro v
    rw [matchAlternative, if_pos (show ('/' :: t).head? = some '/' from rfl), matchPathnameAt_literal (by decide) (by decide) (by decide)
      (by decide)]
    simpa using matchPathnameAt_plain t v ht
  constructor
  · have hs : (u ++ '/' :: t).head? = some '/' := by
      cases u with
      | nil => cases hu
      | cons c u => exact hu
    rw [matchPathname, barPointers_of_not_mem hbar, slashPointers_eq_map hs, firstMatch_map]
    simp only [firstMatch, SearchMatched.orElse_failure, hout]
    exact (firstMatch_eq_success_iff fun v _ => by split <;> simp).mpr
      ⟨t, mem_boundarySuffixes.mpr ⟨u, rfl⟩, if_pos rfl⟩
  · have hsplit : ('/' :: t).splitOn '|' = ['/' :: t] :=
      List.splitOnP_eq_single _ _ fun c hc h => hbar (beq_iff_eq.mp h ▸ hc)
    have hglob : globMatches (u ++ '/' :: t) ('/' :: t) = false := by
      rw [Bool.eq_false_iff, Ne, globMatches_iff]
      intro h
      have := slashCount_of_inGlob h
      omega
    simp [inLang, hsplit, hglob]

end SearchSyscall
