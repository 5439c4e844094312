import SearchSyscall.ReadWrite.Files

/-!
# Checking the range of a transfer

`rw_verify_area(read_write, file, ppos, count)` (lines 299-331) admits a request for `count` bytes
at `*ppos` before every transfer of this file.  It rejects a count that is negative as a `ssize_t`,
a range that leaves the file's offsets, a range a mandatory lock covers and a transfer the security
hook refuses, and it caps the count at `MAX_RW_COUNT`.  The two range tests are written in the
wrapping arithmetic of `loff_t` and `size_t`:

* `RangeFits f pos count`: the bytes `[pos, pos + count)` lie within the file's offsets, `[0, 2^63)`
  when they are signed and `[0, 2^64)` when they are unsigned;
* `rwVerifyArea_of_nonneg`, `rwVerifyArea_of_fits`: the tests pass exactly on a count that is a
  `ssize_t` and a range that fits, and the call then returns the count capped at `MAX_RW_COUNT`.
-/

namespace SearchSyscall

variable {W : Type}

/-- Lines 319-330 of `rw_verify_area`: the mandatory-lock check, the security hook, and the cap. -/
def rwVerifyChecks (K : Kernel W) (w : W) (rw : Rw) (f : OpenFile W) (pos : Int) (count : UInt64) :
    Int :=
  if K.mandatoryLock w f.ino ∧ K.locksMandatoryArea w f.ino rw pos count < 0 then
    K.locksMandatoryArea w f.ino rw pos count
  else if K.securityFilePermission w f.ino rw ≠ 0 then K.securityFilePermission w f.ino rw
  else if count.toNat > maxRwCount then maxRwCount else count.toNat

/-- `rw_verify_area(read_write, file, ppos, count)` (lines 299-331), `pos` being `*ppos`. -/
def rwVerifyArea (K : Kernel W) (w : W) (rw : Rw) (f : OpenFile W) (pos : Int) (count : UInt64) :
    Int :=
  if toLoff count.toNat < 0 then einval.neg
  else if pos < 0 then
    if unsignedOffsets f = false then einval.neg
    else if count.toNat ≥ toSize (-pos) then eoverflow.neg
    else rwVerifyChecks K w rw f pos count
  else if toLoff (pos + count.toNat) < 0 then
    if unsignedOffsets f = false then einval.neg
    else rwVerifyChecks K w rw f pos count
  else rwVerifyChecks K w rw f pos count

/-- The bytes `[pos, pos + count)` lie within the file's offsets. -/
def RangeFits (f : OpenFile W) (pos : Int) (count : Nat) : Prop :=
  if unsignedOffsets f then toSize pos + count < 2 ^ 64 else 0 ≤ pos ∧ pos + count < 2 ^ 63

/-- The mandatory-lock check and the security hook let the transfer through. -/
def ChecksPass (K : Kernel W) (w : W) (rw : Rw) (f : OpenFile W) (pos : Int) (count : UInt64) :
    Prop :=
  ¬(K.mandatoryLock w f.ino = true ∧ K.locksMandatoryArea w f.ino rw pos count < 0) ∧
    K.securityFilePermission w f.ino rw = 0

section Verify

variable (K : Kernel W) (w : W) (rw : Rw) (f : OpenFile W) (pos : Int) (count : UInt64)

theorem rwVerifyChecks_cases :
    ChecksPass K w rw f pos count ∧
        rwVerifyChecks K w rw f pos count = (min count.toNat maxRwCount : Nat) ∨
      ¬ChecksPass K w rw f pos count ∧ rwVerifyChecks K w rw f pos count < 0 := by
  unfold rwVerifyChecks ChecksPass
  have hs := K.securityFilePermission_le w f.ino rw
  split_ifs with h1 h2 h3
  · exact .inr ⟨fun h => h.1 h1, h1.2⟩
  · exact .inr ⟨fun h => h2 h.2, by omega⟩
  · exact .inl ⟨⟨h1, not_not.mp h2⟩, by simp only [Nat.min_def]; split <;> omega⟩
  · exact .inl ⟨⟨h1, not_not.mp h2⟩, by simp only [Nat.min_def]; split <;> omega⟩

private theorem rwVerifyChecks_le : rwVerifyChecks K w rw f pos count ≤ maxRwCount := by
  rcases rwVerifyChecks_cases K w rw f pos count with ⟨-, he⟩ | ⟨-, hn⟩
  · rw [he]
    exact Int.ofNat_le.mpr (Nat.min_le_right _ _)
  · omega

/-- `rw_verify_area` refuses with `-EINVAL` or `-EOVERFLOW`, or returns what the checks return. -/
theorem rwVerifyArea_cases :
    rwVerifyArea K w rw f pos count = einval.neg ∨ rwVerifyArea K w rw f pos count = eoverflow.neg ∨
      rwVerifyArea K w rw f pos count = rwVerifyChecks K w rw f pos count := by
  unfold rwVerifyArea
  split_ifs
  · exact .inl rfl
  · exact .inl rfl
  · exact .inr (.inl rfl)
  · exact .inr (.inr rfl)
  · exact .inl rfl
  · exact .inr (.inr rfl)
  · exact .inr (.inr rfl)

/-- `rw_verify_area` never lets more than `MAX_RW_COUNT` bytes through, whatever it is asked. -/
theorem rwVerifyArea_le : rwVerifyArea K w rw f pos count ≤ maxRwCount := by
  have := rwVerifyChecks_le K w rw f pos count
  have := Errno.neg_lt_zero einval
  have := Errno.neg_lt_zero eoverflow
  rcases rwVerifyArea_cases K w rw f pos count with h | h | h <;> omega

/-- `rw_verify_area` reads the file's mode and inode, not its position. -/
theorem rwVerifyArea_pos_irrel (p : Int) :
    rwVerifyArea K w rw { f with pos := p } pos count = rwVerifyArea K w rw f pos count :=
  rfl

/-- Whatever the position, a `rw_verify_area` that lets the transfer through returns the count
capped at `MAX_RW_COUNT`. -/
theorem rwVerifyArea_eq_min (h : 0 ≤ rwVerifyArea K w rw f pos count) :
    rwVerifyArea K w rw f pos count = (min count.toNat maxRwCount : Nat) := by
  rcases rwVerifyArea_cases K w rw f pos count with he | he | he <;> rw [he] at h ⊢
  · exact absurd h (Int.not_le.mpr (Errno.neg_lt_zero einval))
  · exact absurd h (Int.not_le.mpr (Errno.neg_lt_zero eoverflow))
  · rcases rwVerifyChecks_cases K w rw f pos count with ⟨-, he'⟩ | ⟨-, hn⟩
    · exact he'
    · omega

variable {pos} (hpos : InLoff pos)
include hpos

/-- The range tests of lines 306-317 pass exactly on a count that is a `ssize_t` and a range that
fits; a request that fails them is refused with a negative value. -/
theorem rwVerifyArea_range_tests :
    (count.toNat < 2 ^ 63 ∧ RangeFits f pos count.toNat →
        rwVerifyArea K w rw f pos count = rwVerifyChecks K w rw f pos count) ∧
      (¬(count.toNat < 2 ^ 63 ∧ RangeFits f pos count.toNat) →
        rwVerifyArea K w rw f pos count < 0) := by
  have hc := uint64_toNat_lt count
  unfold InLoff at hpos
  unfold rwVerifyArea RangeFits
  by_cases hbig : count.toNat < 2 ^ 63
  swap
  · -- a count past `SSIZE_MAX` is refused first
    rw [if_pos (show toLoff (count.toNat : Int) < 0 by unfold toLoff; omega)]
    exact ⟨fun h => absurd h.1 hbig, fun _ => Errno.neg_lt_zero _⟩
  rw [if_neg (show ¬toLoff (count.toNat : Int) < 0 by unfold toLoff; omega)]
  cases hu : unsignedOffsets f
  · simp only [Bool.false_eq_true, if_false, if_true]
    by_cases hp : pos < 0
    · rw [if_pos hp]
      exact ⟨fun h => absurd h.2.1 (by omega), fun _ => Errno.neg_lt_zero _⟩
    rw [if_neg hp]
    by_cases hs : pos + count.toNat < 2 ^ 63
    · rw [if_neg (show ¬toLoff (pos + count.toNat) < 0 by unfold toLoff; omega)]
      exact ⟨fun _ => rfl, fun h => absurd ⟨hbig, by omega, hs⟩ h⟩
    · rw [if_pos (show toLoff (pos + count.toNat) < 0 by unfold toLoff; omega)]
      exact ⟨fun h => absurd h.2.2 hs, fun _ => Errno.neg_lt_zero _⟩
  · simp only [Bool.true_eq_false, if_false, if_true]
    by_cases hp : pos < 0
    · rw [if_pos hp]
      have hneg : (toSize pos : Int) = pos + 2 ^ 64 := toSize_of_neg hpos hp
      have hneg' : (toSize (-pos) : Int) = -pos := by unfold toSize; omega
      by_cases ho : count.toNat ≥ toSize (-pos)
      · rw [if_pos ho]
        exact ⟨fun h => absurd h.2 (by omega), fun _ => Errno.neg_lt_zero _⟩
      · rw [if_neg ho]
        exact ⟨fun _ => rfl, fun h => absurd ⟨hbig, by omega⟩ h⟩
    · rw [if_neg hp]
      have hnn : (toSize pos : Int) = pos := toSize_of_nonneg hpos (by omega)
      -- an unsigned file may run past `2^63`
      split_ifs <;> exact ⟨fun _ => rfl, fun h => absurd ⟨hbig, by omega⟩ h⟩

theorem rwVerifyArea_of_nonneg (h : 0 ≤ rwVerifyArea K w rw f pos count) :
    rwVerifyArea K w rw f pos count = (min count.toNat maxRwCount : Nat) ∧
      count.toNat < 2 ^ 63 ∧ RangeFits f pos count.toNat ∧ ChecksPass K w rw f pos count := by
  obtain ⟨hfit, hnot⟩ := rwVerifyArea_range_tests K w rw f count hpos
  by_cases hr : count.toNat < 2 ^ 63 ∧ RangeFits f pos count.toNat
  · rw [hfit hr] at h ⊢
    rcases rwVerifyChecks_cases K w rw f pos count with ⟨hp, he⟩ | ⟨-, hn⟩
    · exact ⟨he, hr.1, hr.2, hp⟩
    · omega
  · exact absurd h (Int.not_le.mpr (hnot hr))

theorem rwVerifyArea_of_fits (h : count.toNat < 2 ^ 63 ∧ RangeFits f pos count.toNat ∧
    ChecksPass K w rw f pos count) :
    rwVerifyArea K w rw f pos count = (min count.toNat maxRwCount : Nat) := by
  rw [(rwVerifyArea_range_tests K w rw f count hpos).1 ⟨h.1, h.2.1⟩]
  rcases rwVerifyChecks_cases K w rw f pos count with ⟨-, he⟩ | ⟨hn, -⟩
  · exact he
  · exact absurd h.2.2 hn

/-- The count a successful `rw_verify_area` hands on, as the `size_t` its caller stores it in. -/
theorem rwVerifyArea_toNat (h : 0 ≤ rwVerifyArea K w rw f pos count) :
    (UInt64.ofNat (rwVerifyArea K w rw f pos count).toNat).toNat = min count.toNat maxRwCount := by
  rw [(rwVerifyArea_of_nonneg K w rw f count hpos h).1, uint64_toNat_ofNat] <;> simp only [maxRwCount] <;> omega

/-- `rw_verify_area` in full: on a count that is a `ssize_t`, a range that fits the file's offsets
and a lock and security hook that let it through, it returns the count capped at `MAX_RW_COUNT`; on
any other request, a negative value. -/
theorem rwVerifyArea_spec :
    (count.toNat < 2 ^ 63 ∧ RangeFits f pos count.toNat ∧ ChecksPass K w rw f pos count →
        rwVerifyArea K w rw f pos count = (min count.toNat maxRwCount : Nat)) ∧
      (¬(count.toNat < 2 ^ 63 ∧ RangeFits f pos count.toNat ∧ ChecksPass K w rw f pos count) →
        rwVerifyArea K w rw f pos count < 0) :=
  ⟨rwVerifyArea_of_fits K w rw f count hpos,
    fun h => Int.not_le.mp fun h' => h (rwVerifyArea_of_nonneg K w rw f count hpos h').2⟩

end Verify

theorem rwVerifyArea_spec_quiet :
    InLoff 0 ∧
      (((4096 : UInt64).toNat < 2 ^ 63 ∧ RangeFits OpenFile.quiet 0 (4096 : UInt64).toNat ∧
          ChecksPass Kernel.quiet () .read OpenFile.quiet 0 4096 →
          rwVerifyArea Kernel.quiet () .read OpenFile.quiet 0 4096 =
            (min (4096 : UInt64).toNat maxRwCount : Nat)) ∧
        (¬((4096 : UInt64).toNat < 2 ^ 63 ∧ RangeFits OpenFile.quiet 0 (4096 : UInt64).toNat ∧
            ChecksPass Kernel.quiet () .read OpenFile.quiet 0 4096) →
          rwVerifyArea Kernel.quiet () .read OpenFile.quiet 0 4096 < 0)) :=
  have h : InLoff 0 := by unfold InLoff; omega
  ⟨h, rwVerifyArea_spec Kernel.quiet () .read OpenFile.quiet 4096 h⟩

end SearchSyscall
