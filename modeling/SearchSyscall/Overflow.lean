import SearchSyscall.Match

/-!
# The depth bound of the matcher

`__match_pathname` gives up with `SEARCH_MATCH_OVERFLOW` once its recursion depth reaches 8, and
both matchers return the first outcome that is not `SEARCH_MATCH_FAILURE`.  An `OVERFLOW` met in one
`*` expansion, one `?` choice, one suffix or one alternative therefore ends the whole match.  This
module compares the matcher with `matchPathnameF`, the same loops over `matchPathnameAtF`, the
variant that fails at the bound instead.

* `AgreesUnlessOverflow r r'`: `r` is `OVERFLOW`, or `r'` is `r`.  It is kept by `orElse`, by the
  `*` loop and by the first-match loops, so it holds of the two matchers on every input
  (`matchPathnameAt_agreesUnlessOverflow`, `matchPathname_overflow_or_eq`).
* The converse fails: where the bounded search meets `OVERFLOW` first, the variant goes on and may
  succeed.
-/

namespace SearchSyscall

open SearchMatched

/-! ### The variant that fails at the bound -/

/-- `__match_pathname` with `return SEARCH_MATCH_FAILURE` in place of `return SEARCH_MATCH_OVERFLOW`
at the depth bound. -/
def matchPathnameAtF (n : Nat) (pathname pattern : List Char) : SearchMatched :=
  if 8 ≤ n then matchFailure else
  match pattern with
  | [] => if pathname = [] then matchSuccess else matchFailure
  | '*' :: pattern => matchStar (fun p => matchPathnameAtF (n + 1) p pattern) pathname
  | '?' :: pattern =>
    if isFilename pathname.head? then
      (matchPathnameAtF (n + 1) pathname.tail pattern).orElse (matchPathnameAtF n pathname pattern)
    else matchPathnameAtF n pathname pattern
  | '[' :: _ => matchFailure
  | c :: pattern =>
    if c = '|' ∧ pathname = [] then matchSuccess
    else if c = '/' ∧ pathname = [] then matchPartial
    else match pathname with
      | d :: rest => if d = c then matchPathnameAtF n rest pattern else matchFailure
      | [] => matchFailure

private theorem matchPathnameAtF_nil {n : Nat} (h : n < 8) (s : List Char) :
    matchPathnameAtF n s [] = if s = [] then matchSuccess else matchFailure := by
  rw [matchPathnameAtF]; simp [Nat.not_le.mpr h]

private theorem matchPathnameAtF_star {n : Nat} (h : n < 8) (s a : List Char) :
    matchPathnameAtF n s ('*' :: a) = matchStar (fun p => matchPathnameAtF (n + 1) p a) s := by
  rw [matchPathnameAtF]; simp [Nat.not_le.mpr h]

private theorem matchPathnameAtF_qmark {n : Nat} (h : n < 8) (s a : List Char) :
    matchPathnameAtF n s ('?' :: a) =
      if isFilename s.head? then
        (matchPathnameAtF (n + 1) s.tail a).orElse (matchPathnameAtF n s a)
      else matchPathnameAtF n s a := by
  rw [matchPathnameAtF]; simp [Nat.not_le.mpr h]

private theorem matchPathnameAtF_bracket {n : Nat} (h : n < 8) (s a : List Char) :
    matchPathnameAtF n s ('[' :: a) = matchFailure := by
  rw [matchPathnameAtF]; simp [Nat.not_le.mpr h]

private theorem matchPathnameAtF_literal {n : Nat} (h : n < 8) {c : Char} (h1 : c ≠ '*') (h2 : c ≠ '?')
    (h3 : c ≠ '[') (s a : List Char) :
    matchPathnameAtF n s (c :: a) =
      if c = '|' ∧ s = [] then matchSuccess
      else if c = '/' ∧ s = [] then matchPartial
      else match s with
        | d :: rest => if d = c then matchPathnameAtF n rest a else matchFailure
        | [] => matchFailure := by
  rw [matchPathnameAtF.eq_def]; simp only [Nat.not_le.mpr h, if_false]

/-- One alternative tried at one suffix, over `matchPathnameAtF`. -/
def matchAlternativeF (path patt : List Char) : SearchMatched :=
  if patt.head? = some '/' then matchPathnameAtF 0 path patt else matchPathnameAtF 0 path.tail patt

/-- `match_pathname` over `matchPathnameAtF`: the same suffix and alternative loops. -/
def matchPathnameF (pathname pattern : List Char) : SearchMatched :=
  firstMatch (fun path => firstMatch (matchAlternativeF path) (barPointers pattern))
    (slashPointers pathname)

/-! ### Agreement up to `OVERFLOW` -/

/-- `r` is `OVERFLOW`, or `r'` is `r`. -/
def AgreesUnlessOverflow (r r' : SearchMatched) : Prop := r = matchOverflow ∨ r' = r

theorem AgreesUnlessOverflow.refl (r : SearchMatched) : AgreesUnlessOverflow r r := .inr rfl

/-- The first of two attempts that does not fail: an `OVERFLOW` of the first ends both. -/
theorem AgreesUnlessOverflow.orElse {x x' y y' : SearchMatched} (hx : AgreesUnlessOverflow x x')
    (hy : AgreesUnlessOverflow y y') : AgreesUnlessOverflow (x.orElse y) (x'.orElse y') := by
  rcases hx with rfl | rfl
  · exact .inl rfl
  · cases x'
    · exact hy
    all_goals exact .inr rfl

theorem AgreesUnlessOverflow.firstMatch {α : Type} {f g : α → SearchMatched}
    (h : ∀ x, AgreesUnlessOverflow (f x) (g x)) :
    ∀ l : List α, AgreesUnlessOverflow (SearchSyscall.firstMatch f l) (SearchSyscall.firstMatch g l)
  | [] => .refl _
  | x :: l => (h x).orElse (AgreesUnlessOverflow.firstMatch h l)

theorem AgreesUnlessOverflow.matchStar {f g : List Char → SearchMatched}
    (h : ∀ p, AgreesUnlessOverflow (f p) (g p)) (s : List Char) :
    AgreesUnlessOverflow (SearchSyscall.matchStar f s) (SearchSyscall.matchStar g s) := by
  rw [matchStar_eq_firstMatch, matchStar_eq_firstMatch]
  exact AgreesUnlessOverflow.firstMatch h _

/-- `__match_pathname` agrees with the variant wherever it does not return `OVERFLOW`. -/
theorem matchPathnameAt_agreesUnlessOverflow : ∀ (a : List Char) (n : Nat) (s : List Char),
    AgreesUnlessOverflow (matchPathnameAt n s a) (matchPathnameAtF n s a)
  | a, n, s => by
    by_cases hn : 8 ≤ n
    · exact .inl (matchPathnameAt_of_le hn s a)
    have hn' : n < 8 := by omega
    match a with
    | [] => rw [matchPathnameAt_nil hn', matchPathnameAtF_nil hn']; exact .refl _
    | x :: a =>
      by_cases h1 : x = '*'
      · subst h1
        rw [matchPathnameAt_star hn', matchPathnameAtF_star hn']
        exact .matchStar (fun p => matchPathnameAt_agreesUnlessOverflow a (n + 1) p) s
      by_cases h2 : x = '?'
      · subst h2
        rw [matchPathnameAt_qmark hn', matchPathnameAtF_qmark hn']
        split
        · exact (matchPathnameAt_agreesUnlessOverflow a (n + 1) _).orElse
            (matchPathnameAt_agreesUnlessOverflow a n s)
        · exact matchPathnameAt_agreesUnlessOverflow a n s
      by_cases h3 : x = '['
      · subst h3
        rw [matchPathnameAt_bracket hn', matchPathnameAtF_bracket hn']
        exact .refl _
      rw [matchPathnameAt_literal hn' h1 h2 h3, matchPathnameAtF_literal hn' h1 h2 h3]
      split
      · exact .refl _
      split
      · exact .refl _
      cases s with
      | nil => exact .refl _
      | cons d rest =>
        dsimp only
        split
        · exact matchPathnameAt_agreesUnlessOverflow a n rest
        · exact .refl _

/-- `match_pathname` is `OVERFLOW` or what the variant returns. -/
theorem matchPathname_overflow_or_eq (s p : List Char) :
    matchPathname s p = matchOverflow ∨ matchPathnameF s p = matchPathname s p :=
  AgreesUnlessOverflow.firstMatch (fun path => AgreesUnlessOverflow.firstMatch (fun patt => by
    simp only [matchAlternative, matchAlternativeF]
    split <;> exact matchPathnameAt_agreesUnlessOverflow _ _ _) _) _

/-- `*???????` on a name of seven bytes: the first try, `*` empty and every `?` taking a byte, meets
the bound and ends the match with `OVERFLOW`; the variant goes on to `*` taking one byte and
succeeds. -/
theorem matchPathname_overflow_hides_success :
    matchPathname "/abcdefg".toList "*???????".toList = matchOverflow ∧
      matchPathnameF "/abcdefg".toList "*???????".toList = matchSuccess := by
  decide

end SearchSyscall
