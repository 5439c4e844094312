import SearchSyscall.Match

/-!
# The glob language and the correctness of `__match_pathname`

`GlobTo stop s a` says that the path `s` can be consumed by the pattern `a` (`*` any run of non-`/`
bytes, `?` zero or one non-`/` byte, `[` nothing, every other byte itself) up to a pattern suffix
satisfying `stop` at the moment the path runs out.  Two instances matter:

* `InGlob s a`, the glob language `L(a)`: the whole pattern is consumed;
* `InGlobPrefix s a`: the path runs out just before a `/` of the pattern, that is
  `s ∈ L(a[0..j))` for some `j` with `a[j] = '/'` (`inGlobPrefix_iff`).

A path in `L(a)` has as many `/` as `a`, a path in the prefix language fewer
(`slashCount_of_inGlob`, `slashCount_lt_of_inGlobPrefix`), so the two never overlap.  With that,
the backtracking order of `__match_pathname` — first non-`FAILURE` wins, `?` tries one byte before
none — cannot return `PARTIAL` where `SUCCESS` is due, and `matchPathnameAt_spec` shows that on a
pattern without `|` and with fewer than `8 - n` wildcards the matcher returns `SUCCESS` exactly on
`L(a)`, `PARTIAL` exactly on the prefix language, and never `OVERFLOW`.
-/

namespace SearchSyscall

open SearchMatched

/-- Derivations of the path `s` against the pattern `a`, ending when the path is exhausted at a
pattern suffix satisfying `stop`. -/
inductive GlobTo (stop : List Char → Prop) : List Char → List Char → Prop
  | done {a : List Char} : stop a → GlobTo stop [] a
  | star {u t a : List Char} : (∀ c ∈ u, c ≠ '/') → GlobTo stop t a → GlobTo stop (u ++ t) ('*' :: a)
  | qmarkZero {s a : List Char} : GlobTo stop s a → GlobTo stop s ('?' :: a)
  | qmarkOne {c : Char} {s a : List Char} : c ≠ '/' → GlobTo stop s a → GlobTo stop (c :: s) ('?' :: a)
  | literal {c : Char} {s a : List Char} : c ≠ '*' → c ≠ '?' → c ≠ '[' → GlobTo stop s a →
      GlobTo stop (c :: s) (c :: a)

/-- `s ∈ L(a)`. -/
def InGlob (s a : List Char) : Prop := GlobTo (· = []) s a

/-- The path ends where the pattern continues with `/`. -/
def InGlobPrefix (s a : List Char) : Prop := GlobTo (fun a => a.head? = some '/') s a

/-- The number of `*` and `?` bytes of a pattern. -/
def wildcardCount (a : List Char) : Nat := a.countP (fun c => c = '*' || c = '?')

/-- The number of `/` bytes of a string. -/
def slashCount (s : List Char) : Nat := s.count '/'

/-! ### Inversion -/

section Inversion

variable {stop : List Char → Prop} {s a : List Char}

theorem globTo_nil_iff : GlobTo stop s [] ↔ s = [] ∧ stop [] := by
  constructor
  · rintro ⟨h⟩; exact ⟨rfl, h⟩
  · rintro ⟨rfl, h⟩; exact .done h

theorem globTo_star_iff : GlobTo stop s ('*' :: a) ↔
    (s = [] ∧ stop ('*' :: a)) ∨ ∃ u t, s = u ++ t ∧ (∀ c ∈ u, c ≠ '/') ∧ GlobTo stop t a := by
  constructor
  · rintro (⟨h⟩ | ⟨hu, h⟩ | ⟨⟩ | ⟨⟩ | ⟨h1⟩)
    · exact .inl ⟨rfl, h⟩
    · exact .inr ⟨_, _, rfl, hu, h⟩
    · exact absurd rfl h1
  · rintro (⟨rfl, h⟩ | ⟨u, t, rfl, hu, h⟩)
    · exact .done h
    · exact .star hu h

theorem globTo_qmark_iff : GlobTo stop s ('?' :: a) ↔
    (s = [] ∧ stop ('?' :: a)) ∨ GlobTo stop s a ∨
      ∃ c s', s = c :: s' ∧ c ≠ '/' ∧ GlobTo stop s' a := by
  constructor
  · rintro (⟨h⟩ | ⟨⟩ | ⟨h⟩ | ⟨hc, h⟩ | ⟨-, h2⟩)
    · exact .inl ⟨rfl, h⟩
    · exact .inr (.inl h)
    · exact .inr (.inr ⟨_, _, rfl, hc, h⟩)
    · exact absurd rfl h2
  · rintro (⟨rfl, h⟩ | h | ⟨c, s', rfl, hc, h⟩)
    · exact .done h
    · exact .qmarkZero h
    · exact .qmarkOne hc h

theorem globTo_bracket_iff : GlobTo stop s ('[' :: a) ↔ s = [] ∧ stop ('[' :: a) := by
  constructor
  · rintro (⟨h⟩ | ⟨⟩ | ⟨⟩ | ⟨⟩ | ⟨-, -, h3⟩)
    · exact ⟨rfl, h⟩
    · exact absurd rfl h3
  · rintro ⟨rfl, h⟩; exact .done h

theorem globTo_literal_iff {c : Char} (h1 : c ≠ '*') (h2 : c ≠ '?') (h3 : c ≠ '[') :
    GlobTo stop s (c :: a) ↔ (s = [] ∧ stop (c :: a)) ∨ ∃ s', s = c :: s' ∧ GlobTo stop s' a := by
  constructor
  · rintro (⟨h⟩ | ⟨⟩ | ⟨⟩ | ⟨⟩ | ⟨-, -, -, h⟩)
    · exact .inl ⟨rfl, h⟩
    · exact absurd rfl h1
    · exact absurd rfl h2
    · exact absurd rfl h2
    · exact .inr ⟨_, rfl, h⟩
  · rintro (⟨rfl, h⟩ | ⟨s', rfl, h⟩)
    · exact .done h
    · exact .literal h1 h2 h3 h

end Inversion

/-! ### Counting `/` -/

/-- A derivation consumes as many `/` of the path as of the pattern. -/
theorem GlobTo.slashCount_eq {stop : List Char → Prop} {s a : List Char} (h : GlobTo stop s a) :
    ∃ b, stop b ∧ slashCount s + slashCount b = slashCount a := by
  induction h with
  | done h => exact ⟨_, h, by simp [slashCount]⟩
  | @star u t a hu _ ih =>
    obtain ⟨b, hb, e⟩ := ih
    have hu0 : u.count '/' = 0 := List.count_eq_zero.mpr fun hm => hu _ hm rfl
    exact ⟨b, hb, by simp only [slashCount, List.count_append, List.count_cons] at e ⊢; simp; omega⟩
  | qmarkZero _ ih =>
    obtain ⟨b, hb, e⟩ := ih
    exact ⟨b, hb, by simp only [slashCount, List.count_cons] at e ⊢; simp; omega⟩
  | qmarkOne hc _ ih =>
    obtain ⟨b, hb, e⟩ := ih
    exact ⟨b, hb, by simp only [slashCount, List.count_cons] at e ⊢; simp [hc]; omega⟩
  | literal _ _ _ _ ih =>
    obtain ⟨b, hb, e⟩ := ih
    exact ⟨b, hb, by simp only [slashCount, List.count_cons] at e ⊢; split <;> omega⟩

theorem slashCount_of_inGlob {s a : List Char} (h : InGlob s a) : slashCount s = slashCount a := by
  obtain ⟨b, rfl, e⟩ := GlobTo.slashCount_eq h
  simpa [slashCount] using e

theorem slashCount_lt_of_inGlobPrefix {s a : List Char} (h : InGlobPrefix s a) :
    slashCount s < slashCount a := by
  obtain ⟨b, hb, e⟩ := GlobTo.slashCount_eq h
  obtain _ | ⟨c, b⟩ := b
  · simp at hb
  · simp only [List.head?_cons, Option.some.injEq] at hb
    subst hb
    simp only [slashCount, List.count_cons_self] at e ⊢
    omega

/-- No path is both in `L(a)` and in its prefix language. -/
theorem not_inGlobPrefix_of_inGlob {s a : List Char} (h : InGlob s a) : ¬InGlobPrefix s a :=
  fun h' => by have := slashCount_of_inGlob h; have := slashCount_lt_of_inGlobPrefix h'; omega

/-! ### The matcher against the languages -/

/-- The outcome `r` of matching `s` against `a` is the one the languages prescribe. -/
structure MatchSpec (r : SearchMatched) (s a : List Char) : Prop where
  ne_overflow : r ≠ matchOverflow
  success_iff : r = matchSuccess ↔ InGlob s a
  partial_iff : r = matchPartial ↔ InGlobPrefix s a

section MatchSpec

variable {r : SearchMatched} {s a : List Char}

theorem MatchSpec.of (h1 : r ≠ matchOverflow) (hs : r = matchSuccess → InGlob s a)
    (hp : r = matchPartial → InGlobPrefix s a)
    (hf : InGlob s a ∨ InGlobPrefix s a → r ≠ matchFailure) : MatchSpec r s a := by
  refine ⟨h1, ⟨hs, fun h => ?_⟩, ⟨hp, fun h => ?_⟩⟩
  · cases r
    · exact absurd rfl (hf (.inl h))
    · exact absurd (hp rfl) (not_inGlobPrefix_of_inGlob h)
    · rfl
    · exact absurd rfl h1
  · cases r
    · exact absurd rfl (hf (.inr h))
    · rfl
    · exact absurd h (not_inGlobPrefix_of_inGlob (hs rfl))
    · exact absurd rfl h1

private theorem MatchSpec.ne_failure (h : MatchSpec r s a) (hs : InGlob s a ∨ InGlobPrefix s a) :
    r ≠ matchFailure := by
  rcases hs with hs | hs
  · rw [h.success_iff.mpr hs]; simp
  · rw [h.partial_iff.mpr hs]; simp

/-- The outcome of a list of attempts, each meeting its specification. -/
theorem MatchSpec.firstMatch {α : Type} {f : α → SearchMatched} {l : List α} (ss : α → List Char)
    (b : List Char) (hf : ∀ x ∈ l, MatchSpec (f x) (ss x) b)
    (hs : ∀ x ∈ l, InGlob (ss x) b → InGlob s a) (hp : ∀ x ∈ l, InGlobPrefix (ss x) b → InGlobPrefix s a)
    (hc : InGlob s a ∨ InGlobPrefix s a →
      ∃ x ∈ l, InGlob (ss x) b ∨ InGlobPrefix (ss x) b) :
    MatchSpec (SearchSyscall.firstMatch f l) s a := by
  refine .of ?_ ?_ ?_ ?_
  · rcases firstMatch_cases f l with h | ⟨x, hx, e⟩
    · rw [h]; simp
    · rw [← e]; exact (hf x hx).ne_overflow
  · intro h
    rcases firstMatch_cases f l with h' | ⟨x, hx, e⟩
    · simp [h'] at h
    · exact hs x hx ((hf x hx).success_iff.mp (e.trans h))
  · intro h
    rcases firstMatch_cases f l with h' | ⟨x, hx, e⟩
    · simp [h'] at h
    · exact hp x hx ((hf x hx).partial_iff.mp (e.trans h))
  · intro h h'
    obtain ⟨x, hx, hx'⟩ := hc h
    exact (hf x hx).ne_failure hx' (firstMatch_eq_failure.mp h' x hx)

end MatchSpec

/-! ### One lemma per pattern byte -/

section Cases

variable {s a : List Char}

/-- The end of the pattern: `SUCCESS` exactly at the end of the path. -/
private theorem matchSpec_nil : MatchSpec (if s = [] then matchSuccess else matchFailure) s [] := by
  refine .of (by split <;> simp) ?_ ?_ ?_
  · intro h; split at h
    · subst_vars; exact .done rfl
    · simp at h
  · intro h; split at h <;> simp at h
  · rintro (h | h)
    · rw [InGlob, globTo_nil_iff] at h; simp [h.1]
    · rw [InGlobPrefix, globTo_nil_iff] at h; simp at h

private theorem matchSpec_star {g : List Char → SearchMatched} (ih : ∀ t, MatchSpec (g t) t a) :
    MatchSpec (matchStar g s) s ('*' :: a) := by
  rw [matchStar_eq_firstMatch]
  refine MatchSpec.firstMatch id a (fun x _ => ih x) ?_ ?_ ?_
  · intro x hx h; obtain ⟨u, rfl, hu⟩ := mem_starTails.mp hx; exact .star hu h
  · intro x hx h; obtain ⟨u, rfl, hu⟩ := mem_starTails.mp hx; exact .star hu h
  · rintro (h | h)
    · rcases globTo_star_iff.mp h with ⟨-, h⟩ | ⟨u, t, rfl, hu, h⟩
      · simp at h
      · exact ⟨t, mem_starTails.mpr ⟨u, rfl, hu⟩, .inl h⟩
    · rcases globTo_star_iff.mp h with ⟨-, h⟩ | ⟨u, t, rfl, hu, h⟩
      · simp at h
      · exact ⟨t, mem_starTails.mpr ⟨u, rfl, hu⟩, .inr h⟩

/-- `?` tries one byte, then none. -/
private theorem matchSpec_qmark {g₀ : SearchMatched} {g₁ : List Char → SearchMatched} (h₀ : MatchSpec g₀ s a)
    (h₁ : ∀ c s', s = c :: s' → c ≠ '/' → MatchSpec (g₁ s') s' a) :
    MatchSpec (if isFilename s.head? then (g₁ s.tail).orElse g₀ else g₀) s ('?' :: a) := by
  have hzs : ∀ {t : List Char}, InGlob t ('?' :: a) ↔
      InGlob t a ∨ ∃ c s', t = c :: s' ∧ c ≠ '/' ∧ InGlob s' a := by
    intro t; rw [InGlob, globTo_qmark_iff]; simp; rfl
  have hzp : ∀ {t : List Char}, InGlobPrefix t ('?' :: a) ↔
      InGlobPrefix t a ∨ ∃ c s', t = c :: s' ∧ c ≠ '/' ∧ InGlobPrefix s' a := by
    intro t; rw [InGlobPrefix, globTo_qmark_iff]; simp; rfl
  have hnone : isFilename s.head? = false → MatchSpec g₀ s ('?' :: a) := by
    intro hs
    have hne : ∀ c s', s = c :: s' → c ≠ '/' → False := by
      rintro c s' rfl hc; simp [isFilename, hc] at hs
    refine ⟨h₀.1, ?_, ?_⟩
    · rw [hzs, h₀.2]
      exact ⟨.inl, fun h => h.elim id fun ⟨c, s', e, hc, _⟩ => (hne c s' e hc).elim⟩
    · rw [hzp, h₀.3]
      exact ⟨.inl, fun h => h.elim id fun ⟨c, s', e, hc, _⟩ => (hne c s' e hc).elim⟩
  cases s with
  | nil => exact hnone rfl
  | cons c s' =>
    by_cases hc : c = '/'
    · subst hc; exact hnone (by simp [isFilename])
    · simp only [List.head?_cons, isFilename, bne_iff_ne, ne_eq, hc, not_false_eq_true, if_true,
        List.tail_cons, SearchMatched.orElse_eq_firstMatch]
      refine MatchSpec.firstMatch (fun b => if b then s' else c :: s') a ?_ ?_ ?_ ?_
      · rintro (_ | _) - <;> simp [h₀, h₁ c s' rfl hc]
      · rintro (_ | _) - h
        · exact .qmarkZero h
        · exact .qmarkOne hc h
      · rintro (_ | _) - h
        · exact .qmarkZero h
        · exact .qmarkOne hc h
      · rintro (h | h)
        · rcases hzs.mp h with h | ⟨d, t, e, -, h⟩
          · exact ⟨false, by simp, .inl h⟩
          · obtain ⟨rfl, rfl⟩ := List.cons.inj e; exact ⟨true, by simp, .inl h⟩
        · rcases hzp.mp h with h | ⟨d, t, e, -, h⟩
          · exact ⟨false, by simp, .inr h⟩
          · obtain ⟨rfl, rfl⟩ := List.cons.inj e; exact ⟨true, by simp, .inr h⟩

private theorem matchSpec_bracket : MatchSpec matchFailure s ('[' :: a) := by
  refine .of (by simp) (by simp) (by simp) ?_
  rintro (h | h)
  · exact absurd (globTo_bracket_iff.mp h).2 (by simp)
  · exact absurd (globTo_bracket_iff.mp h).2 (by simp)

/-- A literal byte against a literal byte of the path. -/
theorem MatchSpec.literal {r : SearchMatched} {c : Char} (h : MatchSpec r s a) (h1 : c ≠ '*')
    (h2 : c ≠ '?') (h3 : c ≠ '[') : MatchSpec r (c :: s) (c :: a) := by
  have hl : ∀ {stop : List Char → Prop}, GlobTo stop (c :: s) (c :: a) ↔ GlobTo stop s a := by
    intro stop; rw [globTo_literal_iff h1 h2 h3]; simp
  exact ⟨h.1, by rw [InGlob, hl]; exact h.2, by rw [InGlobPrefix, hl]; exact h.3⟩

/-- A literal byte with nothing of the path left to compare, or a different byte. -/
theorem matchSpec_literal_failure {c : Char} (h1 : c ≠ '*') (h2 : c ≠ '?') (h3 : c ≠ '[')
    (h : (s = [] ∧ c ≠ '/') ∨ s.head? ≠ some c ∧ s ≠ []) : MatchSpec matchFailure s (c :: a) := by
  refine .of (by simp) (by simp) (by simp) ?_
  rintro (h' | h') <;> rcases (globTo_literal_iff h1 h2 h3).mp h' with ⟨rfl, hs⟩ | ⟨s', rfl, -⟩ <;>
    simp_all

end Cases

/-- `__match_pathname(n, s, a)` on a pattern without `|` and with fewer than `8 - n` wildcards:
`SUCCESS` exactly on `L(a)`, `PARTIAL` exactly on the prefix language, never `OVERFLOW`. -/
theorem matchPathnameAt_spec : ∀ (a : List Char) (n : Nat) (s : List Char), '|' ∉ a →
    n + wildcardCount a < 8 → MatchSpec (matchPathnameAt n s a) s a
  | [], n, s, _, hn => by rw [matchPathnameAt_nil (by omega)]; exact matchSpec_nil
  | x :: a, n, s, hbar, hn => by
    have ih : ∀ n s, n + wildcardCount a < 8 → MatchSpec (matchPathnameAt n s a) s a :=
      fun n s hn => matchPathnameAt_spec a n s (fun h => hbar (.tail _ h)) hn
    have hx : x ≠ '|' := fun h => hbar (h ▸ .head _)
    have hw : wildcardCount (x :: a) = wildcardCount a + if x = '*' ∨ x = '?' then 1 else 0 := by
      simp [wildcardCount, List.countP_cons]
    by_cases h1 : x = '*'
    · subst h1
      rw [matchPathnameAt_star (by omega)]
      exact matchSpec_star fun t => ih (n + 1) t (by simp at hw; omega)
    by_cases h2 : x = '?'
    · subst h2
      rw [matchPathnameAt_qmark (by omega)]
      simp at hw
      exact matchSpec_qmark (ih n s (by omega)) fun _ t _ _ => ih (n + 1) t (by omega)
    by_cases h3 : x = '['
    · subst h3; rw [matchPathnameAt_bracket (by omega)]; exact matchSpec_bracket
    rw [matchPathnameAt_literal (by simp [h1, h2] at hw; omega) h1 h2 h3]
    simp only [hx, false_and, if_false]
    have hn' : n + wildcardCount a < 8 := by simp [h1, h2] at hw; omega
    cases s with
    | nil =>
      by_cases hs : x = '/'
      · subst hs
        simp only [and_self, if_true]
        refine .of (by simp) (by simp) (fun _ => .done rfl) (by simp)
      · simp only [hs, false_and, if_false]
        exact matchSpec_literal_failure h1 h2 h3 (.inl ⟨rfl, hs⟩)
    | cons d s =>
      simp only [List.cons_ne_nil, and_false, if_false]
      by_cases hd : d = x
      · subst hd; simp only [if_true]; exact (ih n s hn').literal h1 h2 h3
      · simp only [hd, if_false]
        exact matchSpec_literal_failure h1 h2 h3 (.inr ⟨by simpa using hd, by simp⟩)

/-! ### The prefix language as prefixes of the pattern -/

/-- A derivation splits the pattern where the path ran out. -/
theorem GlobTo.split {stop : List Char → Prop} {s a : List Char} (h : GlobTo stop s a) :
    ∃ j, stop (a.drop j) ∧ InGlob s (a.take j) := by
  induction h with
  | done h => exact ⟨0, h, .done rfl⟩
  | star hu _ ih => obtain ⟨j, hj, h⟩ := ih; exact ⟨j + 1, hj, .star hu h⟩
  | qmarkZero _ ih => obtain ⟨j, hj, h⟩ := ih; exact ⟨j + 1, hj, .qmarkZero h⟩
  | qmarkOne hc _ ih => obtain ⟨j, hj, h⟩ := ih; exact ⟨j + 1, hj, .qmarkOne hc h⟩
  | literal h1 h2 h3 _ ih => obtain ⟨j, hj, h⟩ := ih; exact ⟨j + 1, hj, .literal h1 h2 h3 h⟩

/-- A path of `L(b)` continues into any pattern suffix that may stop. -/
theorem InGlob.append {stop : List Char → Prop} {s b c : List Char} (h : InGlob s b) (hc : stop c) :
    GlobTo stop s (b ++ c) := by
  induction h with
  | done h => subst h; exact .done hc
  | star hu _ ih => exact .star hu ih
  | qmarkZero _ ih => exact .qmarkZero ih
  | qmarkOne hd _ ih => exact .qmarkOne hd ih
  | literal h1 h2 h3 _ ih => exact .literal h1 h2 h3 ih

theorem inGlobPrefix_iff {s a : List Char} :
    InGlobPrefix s a ↔ ∃ j, a[j]? = some '/' ∧ InGlob s (a.take j) := by
  constructor
  · intro h
    obtain ⟨j, hj, h⟩ := GlobTo.split h
    exact ⟨j, by rwa [List.head?_drop] at hj, h⟩
  · rintro ⟨j, hj, h⟩
    rw [← List.take_append_drop j a]
    exact h.append (by rwa [List.head?_drop])

/-- `__match_pathname(0, s, a)`, for a pattern `a` without `|` holding fewer than 8 bytes `*` or `?`,
never returns `OVERFLOW`; it returns `SUCCESS` iff `s ∈ L(a)`, `PARTIAL` iff `s ∉ L(a)` and
`s ∈ L(a[0..j))` for some `j` with `a[j] = '/'`, and `FAILURE` otherwise. -/
theorem matchPathnameAt_zero_glob (s a : List Char) (hbar : '|' ∉ a) (hw : wildcardCount a < 8) :
    matchPathnameAt 0 s a ≠ matchOverflow ∧
    (matchPathnameAt 0 s a = matchSuccess ↔ InGlob s a) ∧
    (matchPathnameAt 0 s a = matchPartial ↔
      ¬InGlob s a ∧ ∃ j, a[j]? = some '/' ∧ InGlob s (a.take j)) ∧
    (matchPathnameAt 0 s a = matchFailure ↔
      ¬InGlob s a ∧ ¬∃ j, a[j]? = some '/' ∧ InGlob s (a.take j)) := by
  have h := matchPathnameAt_spec a 0 s hbar (by omega)
  rw [← inGlobPrefix_iff]
  refine ⟨h.1, h.2, ?_, ?_⟩
  · rw [h.3]
    exact ⟨fun hp => ⟨fun hs => not_inGlobPrefix_of_inGlob hs hp, hp⟩, And.right⟩
  · rw [← h.2, ← h.3]
    have := h.1
    revert this
    cases matchPathnameAt 0 s a <;> simp

/-- The theorem at the pattern `/a*b`, where it says that `*` does not cross a separator. -/
theorem matchPathnameAt_zero_glob_slash_star :
    ('|' ∉ "/a*b".toList ∧ wildcardCount "/a*b".toList < 8) ∧
    (matchPathnameAt 0 "/axxb".toList "/a*b".toList = matchSuccess ↔
      InGlob "/axxb".toList "/a*b".toList) :=
  ⟨⟨by decide, by decide⟩,
    (matchPathnameAt_zero_glob "/axxb".toList "/a*b".toList (by decide) (by decide)).2.1⟩

example : matchPathnameAt 0 "/axx/b".toList "/a*b".toList = matchFailure ∧
    matchPathnameAt 0 "/axxb".toList "/a*b".toList = matchSuccess := by decide

end SearchSyscall
