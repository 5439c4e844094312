import SearchSyscall.Basic

/-!
# The pattern matcher

`__match_pathname`, `match_pathname` and the pattern tests `ispattern` and `isrecursive`, translated
from `fs/read_write.c`.

* `matchPathnameAt n pathname pattern` is `__match_pathname(n, pathname, pattern, flags)`: a
  backtracking matcher for `*`, `?`, `[`, `|` and `/`, which gives up with `SEARCH_MATCH_OVERFLOW` at
  recursion depth 8.  Every iteration of its `while (1)` loop consumes one pattern byte, so it is
  structurally recursive on the pattern; the `*` loop is `matchStar`.
* `matchPathname pathname pattern` runs the matcher at every `/` boundary of `pathname` and at every
  alternative of `pattern`, returning the first outcome that is not `SEARCH_MATCH_FAILURE`.

The pointer loops of the C code become lists of the suffixes they visit (`slashPointers`,
`barPointers`), and `strchr_eq`, `suffixesFrom_eq` and `afterBars_eq` show that these are the values
`strchr` and `strchrskip` produce.  The `flags` argument of both matchers is never read and is left
out.
-/

namespace SearchSyscall

open SearchMatched

/-- `r` unless it is `SEARCH_MATCH_FAILURE`, else `k`: the C idiom
`if (result != SEARCH_MATCH_FAILURE) return result;` followed by the next attempt. -/
def SearchMatched.orElse : SearchMatched → SearchMatched → SearchMatched
  | matchFailure, k => k
  | r, _ => r

@[simp] theorem SearchMatched.failure_orElse (k : SearchMatched) : matchFailure.orElse k = k := rfl

theorem SearchMatched.orElse_of_ne {r : SearchMatched} (h : r ≠ matchFailure) (k : SearchMatched) :
    r.orElse k = r := by
  cases r <;> simp_all [SearchMatched.orElse]

private theorem SearchMatched.orElse_eq_failure {r k : SearchMatched} :
    r.orElse k = matchFailure ↔ r = matchFailure ∧ k = matchFailure := by
  cases r <;> simp [SearchMatched.orElse]

/-- `is_filename(c)`: a byte other than `/` and the terminating NUL (read as `none`). -/
def isFilename : Option Char → Bool
  | some c => c != '/'
  | none => false

/-! ### String scanning -/

/-- `strchr(s, c)` for a byte `c` other than NUL: the suffix of `s` from its first `c`, or `NULL`. -/
def strchr (s : List Char) (c : Char) : Option (List Char) :=
  match s with
  | [] => none
  | d :: rest => if d = c then some (d :: rest) else strchr rest c

/-- `strchrskip(s, c)`: the suffix of `s` just after its first `c`, or `NULL`. -/
def strchrskip (s : List Char) (c : Char) : Option (List Char) :=
  (strchr s c).map List.tail

/-- The suffixes of `s` that start with `c`, longest first. -/
def suffixesFrom (c : Char) : List Char → List (List Char)
  | [] => []
  | d :: rest => if d = c then (d :: rest) :: suffixesFrom c rest else suffixesFrom c rest

/-- The values of `p` in `for (p = s; p; p = strchr(p + 1, '/'))`. -/
def slashPointers (s : List Char) : List (List Char) :=
  s :: suffixesFrom '/' s.tail

/-- The pointers `strchrskip(p + 1, '|')` visits from `p + 1 = l`: after each `|` of `l`, the scan
resumes one byte past the new alternative's first byte. -/
def afterBars : List Char → List (List Char)
  | [] => []
  | ['|'] => [[]]
  | '|' :: c :: rest => (c :: rest) :: afterBars rest
  | _ :: rest => afterBars rest

/-- The values of `patt` in `for (patt = pattern; patt; patt = strchrskip(patt + 1, '|'))`.  When an
alternative is empty its successor would be searched for past the NUL; the model ends the loop there. -/
def barPointers (s : List Char) : List (List Char) :=
  s :: afterBars s.tail

private theorem suffixesFrom_eq (c : Char) (s : List Char) :
    suffixesFrom c s = match strchr s c with
      | none => []
      | some q => q :: suffixesFrom c q.tail := by
  induction s with
  | nil => rfl
  | cons d rest ih =>
    simp only [suffixesFrom, strchr]
    split <;> simp_all

theorem afterBars_eq (s : List Char) :
    afterBars s = match strchrskip s '|' with
      | none => []
      | some q => q :: afterBars q.tail := by
  induction s using afterBars.induct with
  | case1 => rfl
  | case2 => rfl
  | case3 c rest => rfl
  | case4 d rest h1 h2 ih =>
    have hd : d ≠ '|' := by
      rintro rfl
      cases rest with
      | nil => exact h1 rfl rfl
      | cons c r => exact h2 c r rfl rfl
    rw [afterBars.eq_4 d rest h1 h2, ih]
    simp [strchrskip, strchr, hd]

/-! ### `__match_pathname` -/

/-- The `do { … } while (is_filename(*(pathname - 1)))` loop of the `*` case: try the rest of the
pattern at `pathname`, then one byte further on as long as the byte passed over is a file-name byte.
At the end of the string the byte passed over is the NUL, so the loop stops after one try. -/
def matchStar (f : List Char → SearchMatched) : List Char → SearchMatched
  | [] => f []
  | c :: rest => (f (c :: rest)).orElse (if isFilename (some c) then matchStar f rest else matchFailure)

/-- `__match_pathname(n, pathname, pattern, flags)`.  An iteration of the `while (1)` loop that
consumes a pattern byte without recursing is a call with the same `n`, whose bound test then repeats
the one made on entry.  The `case '|'` / `case '/'` fall-through becomes the chain of tests of the
last arm. -/
def matchPathnameAt (n : Nat) (pathname pattern : List Char) : SearchMatched :=
  if 8 ≤ n then matchOverflow else
  match pattern with
  | [] => if pathname = [] then matchSuccess else matchFailure
  | '*' :: pattern => matchStar (fun p => matchPathnameAt (n + 1) p pattern) pathname
  | '?' :: pattern =>
    if isFilename pathname.head? then
      (matchPathnameAt (n + 1) pathname.tail pattern).orElse (matchPathnameAt n pathname pattern)
    else matchPathnameAt n pathname pattern
  | '[' :: _ => matchFailure
  | c :: pattern =>
    if c = '|' ∧ pathname = [] then matchSuccess
    else if c = '/' ∧ pathname = [] then matchPartial
    else match pathname with
      | d :: rest => if d = c then matchPathnameAt n rest pattern else matchFailure
      | [] => matchFailure

theorem matchPathnameAt_of_le {n : Nat} (h : 8 ≤ n) (s a : List Char) :
    matchPathnameAt n s a = matchOverflow := by
  rw [matchPathnameAt.eq_def, if_pos h]

theorem matchPathnameAt_nil {n : Nat} (h : n < 8) (s : List Char) :
    matchPathnameAt n s [] = if s = [] then matchSuccess else matchFailure := by
  rw [matchPathnameAt]; simp [Nat.not_le.mpr h]

theorem matchPathnameAt_star {n : Nat} (h : n < 8) (s a : List Char) :
    matchPathnameAt n s ('*' :: a) = matchStar (fun p => matchPathnameAt (n + 1) p a) s := by
  rw [matchPathnameAt]; simp [Nat.not_le.mpr h]

theorem matchPathnameAt_qmark {n : Nat} (h : n < 8) (s a : List Char) :
    matchPathnameAt n s ('?' :: a) =
      if isFilename s.head? then
        (matchPathnameAt (n + 1) s.tail a).orElse (matchPathnameAt n s a)
      else matchPathnameAt n s a := by
  rw [matchPathnameAt]; simp [Nat.not_le.mpr h]

theorem matchPathnameAt_bracket {n : Nat} (h : n < 8) (s a : List Char) :
    matchPathnameAt n s ('[' :: a) = matchFailure := by
  rw [matchPathnameAt]; simp [Nat.not_le.mpr h]

theorem matchPathnameAt_literal {n : Nat} (h : n < 8) {c : Char} (h1 : c ≠ '*') (h2 : c ≠ '?')
    (h3 : c ≠ '[') (s a : List Char) :
    matchPathnameAt n s (c :: a) =
      if c = '|' ∧ s = [] then matchSuccess
      else if c = '/' ∧ s = [] then matchPartial
      else match s with
        | d :: rest => if d = c then matchPathnameAt n rest a else matchFailure
        | [] => matchFailure := by
  rw [matchPathnameAt.eq_def]; simp only [Nat.not_le.mpr h, if_false]

/-! ### `match_pathname` -/

/-- The first outcome of `f` along `l` that is not `SEARCH_MATCH_FAILURE`, and
`SEARCH_MATCH_FAILURE` when there is none: a C loop that returns as soon as `status != FAILURE`. -/
def firstMatch {α : Type} (f : α → SearchMatched) : List α → SearchMatched
  | [] => matchFailure
  | a :: as => (f a).orElse (firstMatch f as)

theorem firstMatch_eq_failure {α : Type} {f : α → SearchMatched} {l : List α} :
    firstMatch f l = matchFailure ↔ ∀ x ∈ l, f x = matchFailure := by
  induction l with
  | nil => simp [firstMatch]
  | cons a as ih => simp [firstMatch, SearchMatched.orElse_eq_failure, ih]

/-- The outcome of `firstMatch` is `FAILURE` or the outcome at some element. -/
theorem firstMatch_cases {α : Type} (f : α → SearchMatched) (l : List α) :
    firstMatch f l = matchFailure ∨ ∃ x ∈ l, f x = firstMatch f l := by
  induction l with
  | nil => simp [firstMatch]
  | cons a as ih =>
    by_cases ha : f a = matchFailure
    · rcases ih with h | ⟨x, hx, e⟩
      · left; simp [firstMatch, ha, h]
      · right; exact ⟨x, by simp [hx], by simp [firstMatch, ha, e]⟩
    · right; exact ⟨a, by simp, by simp [firstMatch, SearchMatched.orElse_of_ne ha]⟩

theorem firstMatch_congr {α : Type} {f g : α → SearchMatched} :
    ∀ {l : List α}, (∀ x ∈ l, f x = g x) → firstMatch f l = firstMatch g l
  | [], _ => rfl
  | x :: l, h => by
    rw [firstMatch, firstMatch, h x (.head _), firstMatch_congr fun y hy => h y (.tail _ hy)]

theorem firstMatch_map {α β : Type} (f : β → SearchMatched) (g : α → β) :
    ∀ l : List α, firstMatch f (l.map g) = firstMatch (fun x => f (g x)) l
  | [] => rfl
  | x :: l => by rw [List.map_cons, firstMatch, firstMatch, firstMatch_map f g l]

theorem SearchMatched.orElse_eq_firstMatch (x y : SearchMatched) :
    x.orElse y = firstMatch (fun b => if b then x else y) [true, false] := by
  cases x <;> cases y <;> rfl

/-- The positions the `*` loop tries: the suffixes of `s` after a run of non-`/` bytes. -/
def starTails : List Char → List (List Char)
  | [] => [[]]
  | c :: rest => (c :: rest) :: if isFilename (some c) then starTails rest else []

theorem matchStar_eq_firstMatch (f : List Char → SearchMatched) (s : List Char) :
    matchStar f s = firstMatch f (starTails s) := by
  induction s with
  | nil => simp [matchStar, starTails, firstMatch, SearchMatched.orElse]; cases f [] <;> rfl
  | cons c rest ih =>
    simp only [matchStar, starTails, firstMatch]
    split <;> simp [ih, firstMatch]

theorem mem_starTails {s t : List Char} :
    t ∈ starTails s ↔ ∃ u, s = u ++ t ∧ ∀ c ∈ u, c ≠ '/' := by
  induction s with
  | nil =>
    simp only [starTails, List.mem_singleton, List.nil_eq_append_iff]
    constructor
    · rintro rfl; exact ⟨[], ⟨rfl, rfl⟩, by simp⟩
    · rintro ⟨_, ⟨-, rfl⟩, -⟩; rfl
  | cons c rest ih =>
    by_cases hc : c = '/'
    · simp [starTails, isFilename, hc, List.cons_eq_append_iff]
      constructor
      · rintro rfl; exact ⟨[], by simp⟩
      · rintro ⟨u, h, hu⟩
        rcases h with ⟨rfl, rfl⟩ | ⟨u', rfl, -⟩
        · rfl
        · exact absurd rfl (hu '/' (by simp))
    · simp only [starTails, isFilename, bne_iff_ne, ne_eq, hc, not_false_eq_true, if_true,
        List.mem_cons, ih, List.cons_eq_append_iff]
      constructor
      · rintro (rfl | ⟨u, rfl, hu⟩)
        · exact ⟨[], by simp⟩
        · exact ⟨c :: u, .inr ⟨u, rfl, rfl⟩, List.forall_mem_cons.mpr ⟨hc, hu⟩⟩
      · rintro ⟨u, ⟨rfl, rfl⟩ | ⟨u', rfl, rfl⟩, hu⟩
        · exact .inl rfl
        · exact .inr ⟨u', rfl, fun d hd => hu d (by simp [hd])⟩

/-- One alternative `patt` tried at the suffix `path`: an alternative starting with `/` is matched
against `path` itself, any other against `path + 1`. -/
def matchAlternative (path patt : List Char) : SearchMatched :=
  if patt.head? = some '/' then matchPathnameAt 0 path patt else matchPathnameAt 0 path.tail patt

/-- `match_pathname(pathname, pattern, flags)`. -/
def matchPathname (pathname pattern : List Char) : SearchMatched :=
  firstMatch (fun path => firstMatch (matchAlternative path) (barPointers pattern))
    (slashPointers pathname)

/-! ### Pattern tests -/

/-- `ispattern(pattern)`: a pattern not starting with `/`, or holding `*`, `?` or `|`, needs the walk. -/
def ispattern (pattern : List Char) : Bool :=
  pattern.head? != some '/' || pattern.any (fun c => c = '*' || c = '?' || c = '|')

/-- `isrecursive(pattern)`: some alternative does not start with `/`. -/
def isrecursive (pattern : List Char) : Bool :=
  (barPointers pattern).any (fun patt => patt.head? != some '/')

end SearchSyscall
