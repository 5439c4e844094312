import SearchSyscall.ReadWrite.Files

/-!
# Vectors of user buffers

The vectored paths of `fs/read_write.c` take an array of `struct iovec`:

* `iov_shorten` (lines 561-576) shortens a vector in place to its first `to` bytes and returns the
  number of segments that hold them;
* `rw_copy_check_uvector` (lines 638-712) copies the array in from user memory, checks each length
  and buffer, and caps the vector at `MAX_RW_COUNT` bytes, shortening the segment that crosses the
  cap and emptying those after it;
* `do_loop_readv_writev` (lines 604-633) moves a vector with one `read` or `write` per segment,
  and `do_sync_readv_writev` (lines 579-601) hands it whole to the `aio` method.

`cutVector iov n`, the vector cut to its first `n` bytes, is what the first two are for:
`iovShorten_cut` and `checkUvectorLoop_eq` show that each leaves that vector.
-/

namespace SearchSyscall

variable {W : Type}

/-- The bytes a vector covers. -/
def totalLen : List Iovec → Nat
  | [] => 0
  | v :: vs => v.len.toNat + totalLen vs

@[simp] theorem totalLen_nil : totalLen [] = 0 := rfl

@[simp] theorem totalLen_cons (v : Iovec) (vs : List Iovec) :
    totalLen (v :: vs) = v.len.toNat + totalLen vs := rfl

private theorem totalLen_append (xs ys : List Iovec) : totalLen (xs ++ ys) = totalLen xs + totalLen ys := by
  induction xs with
  | nil => simp
  | cons v vs ih => simp only [List.cons_append, totalLen_cons, ih, Nat.add_assoc]

/-- The vector cut to its first `n` bytes: every segment kept, each as long as what is left of the
`n` bytes allows. -/
def cutVector : List Iovec → Nat → List Iovec
  | [], _ => []
  | v :: vs, n =>
    if v.len.toNat ≤ n then v :: cutVector vs (n - v.len.toNat)
    else { v with len := UInt64.ofNat n } :: cutVector vs 0

theorem cutVector_cons_of_le {v : Iovec} {n : Nat} (vs : List Iovec) (h : v.len.toNat ≤ n) :
    cutVector (v :: vs) n = v :: cutVector vs (n - v.len.toNat) := by
  rw [cutVector, if_pos h]

theorem cutVector_cons_of_lt {v : Iovec} {n : Nat} (vs : List Iovec) (h : n < v.len.toNat) :
    cutVector (v :: vs) n = { v with len := UInt64.ofNat n } :: cutVector vs 0 := by
  rw [cutVector, if_neg (Nat.not_le.mpr h)]

theorem totalLen_cutVector : ∀ (vs : List Iovec) (n : Nat),
    totalLen (cutVector vs n) = min n (totalLen vs)
  | [], _ => by simp [cutVector]
  | v :: vs, n => by
    have hv := uint64_toNat_lt v.len
    unfold cutVector
    split
    · simp only [totalLen_cons, totalLen_cutVector vs]
      omega
    · simp only [totalLen_cons, totalLen_cutVector vs, uint64_toNat_ofNat (by omega : n < 2 ^ 64)]
      omega

/-- A segment whose new length has its old value is the segment. -/
private theorem Iovec.with_len_eq (v : Iovec) {x : UInt64} (h : x.toNat = v.len.toNat) :
    { v with len := x } = v := by
  rw [UInt64.toNat.inj h]

/-! ### `iov_shorten` -/

/-- The loop of `iov_shorten` (lines 566-574) from the segment at `iov` on, with `len` bytes before
it and `seg` segments counted: the segments as it leaves them and the count it returns. -/
def iovShortenLoop (upTo : UInt64) : List Iovec → UInt64 → Nat → List Iovec × Nat
  | [], _, seg => ([], seg)
  | v :: vs, len, seg =>
    if len + v.len ≥ upTo then ({ v with len := upTo - len } :: vs, seg + 1)
    else
      let r := iovShortenLoop upTo vs (len + v.len) (seg + 1)
      (v :: r.1, r.2)

/-- `iov_shorten(iov, nr_segs, to)` (lines 561-576), on the `nr_segs` segments of `iov`, `upTo`
being `to`. -/
def iovShorten (iov : List Iovec) (upTo : UInt64) : List Iovec × Nat := iovShortenLoop upTo iov 0 0

theorem iovShortenLoop_cut (upTo : UInt64) : ∀ (vs : List Iovec) (len : UInt64) (seg : Nat),
    len.toNat ≤ upTo.toNat → len.toNat + totalLen vs < 2 ^ 64 →
    ∃ k, (iovShortenLoop upTo vs len seg).2 = seg + k ∧
      (iovShortenLoop upTo vs len seg).1.drop k = vs.drop k ∧
      cutVector vs (upTo.toNat - len.toNat) =
        (iovShortenLoop upTo vs len seg).1.take k ++ cutVector (vs.drop k) 0
  | [], _, _, _, _ => ⟨0, rfl, rfl, rfl⟩
  | v :: vs, len, seg, hle, hsum => by
    have hv := uint64_toNat_lt v.len
    have hadd : (len + v.len).toNat = len.toNat + v.len.toNat := by
      rw [uint64_toNat_add]
      simp only [totalLen_cons] at hsum
      omega
    unfold iovShortenLoop
    by_cases hbreak : len + v.len ≥ upTo
    · rw [if_pos hbreak]
      have hb : upTo.toNat ≤ len.toNat + v.len.toNat := by
        rw [← hadd]
        exact (uint64_le_iff _ _).mp hbreak
      have hsub : (upTo - len).toNat = upTo.toNat - len.toNat := by
        rw [uint64_toNat_sub]
        omega
      refine ⟨1, rfl, rfl, ?_⟩
      simp only [List.drop_succ_cons, List.drop_zero, List.take_succ_cons, List.take_zero,
        List.singleton_append]
      by_cases hfit : v.len.toNat ≤ upTo.toNat - len.toNat
      · rw [cutVector_cons_of_le vs hfit, show upTo.toNat - len.toNat - v.len.toNat = 0 by omega,
          Iovec.with_len_eq v (by omega)]
      · have hcut : UInt64.ofNat (upTo.toNat - len.toNat) = upTo - len :=
          UInt64.toNat.inj (by rw [hsub, uint64_toNat_ofNat (by omega)])
        rw [cutVector_cons_of_lt vs (by omega), hcut]
    · rw [if_neg hbreak]
      have hlt : len.toNat + v.len.toNat < upTo.toNat := by
        rw [← hadd]
        exact Nat.lt_of_not_le fun h => hbreak ((uint64_le_iff _ _).mpr h)
      obtain ⟨k, hk, hdrop, hcut⟩ := iovShortenLoop_cut upTo vs (len + v.len) (seg + 1)
        (by omega) (by simp only [totalLen_cons] at hsum; omega)
      refine ⟨k + 1, by rw [hk]; omega, hdrop, ?_⟩
      rw [cutVector_cons_of_le vs (by omega), show upTo.toNat - len.toNat - v.len.toNat = upTo.toNat - (len + v.len).toNat
        by omega, hcut]
      rfl

/-- `iov_shorten` keeps a vector's first `to` bytes: the segments it counts are those of the vector
cut to `to` bytes, the last shortened where the bytes end, and it leaves the segments past them as
they were. -/
theorem iovShorten_cut (iov : List Iovec) (upTo : UInt64) (h : totalLen iov < 2 ^ 64) :
    (iovShorten iov upTo).1.drop (iovShorten iov upTo).2 = iov.drop (iovShorten iov upTo).2 ∧
      cutVector iov upTo.toNat =
        (iovShorten iov upTo).1.take (iovShorten iov upTo).2 ++ cutVector (iov.drop (iovShorten iov upTo).2) 0 ∧
      totalLen ((iovShorten iov upTo).1.take (iovShorten iov upTo).2) = min upTo.toNat (totalLen iov) := by
  obtain ⟨k, hk, hdrop, hcut⟩ := iovShortenLoop_cut upTo iov 0 0 (Nat.zero_le _) (by simpa using h)
  simp only [Nat.zero_add] at hk
  simp only [iovShorten, hk]
  have hcut' : cutVector iov upTo.toNat = _ := hcut
  refine ⟨hdrop, hcut', ?_⟩
  have ht := totalLen_cutVector iov upTo.toNat
  rw [hcut', totalLen_append, totalLen_cutVector] at ht
  omega

theorem iovShorten_cut_seven :
    totalLen [⟨0, 3⟩, ⟨8, 4⟩, ⟨16, 2⟩] < 2 ^ 64 ∧
      ((iovShorten [⟨0, 3⟩, ⟨8, 4⟩, ⟨16, 2⟩] 5).1.drop (iovShorten [⟨0, 3⟩, ⟨8, 4⟩, ⟨16, 2⟩] 5).2 =
          [⟨0, 3⟩, ⟨8, 4⟩, ⟨16, 2⟩].drop (iovShorten [⟨0, 3⟩, ⟨8, 4⟩, ⟨16, 2⟩] 5).2 ∧
        cutVector [⟨0, 3⟩, ⟨8, 4⟩, ⟨16, 2⟩] (5 : UInt64).toNat =
          (iovShorten [⟨0, 3⟩, ⟨8, 4⟩, ⟨16, 2⟩] 5).1.take (iovShorten [⟨0, 3⟩, ⟨8, 4⟩, ⟨16, 2⟩] 5).2 ++
            cutVector ([⟨0, 3⟩, ⟨8, 4⟩, ⟨16, 2⟩].drop (iovShorten [⟨0, 3⟩, ⟨8, 4⟩, ⟨16, 2⟩] 5).2) 0 ∧
        totalLen ((iovShorten [⟨0, 3⟩, ⟨8, 4⟩, ⟨16, 2⟩] 5).1.take
            (iovShorten [⟨0, 3⟩, ⟨8, 4⟩, ⟨16, 2⟩] 5).2) =
          min (5 : UInt64).toNat (totalLen [⟨0, 3⟩, ⟨8, 4⟩, ⟨16, 2⟩])) :=
  have h : totalLen [⟨0, 3⟩, ⟨8, 4⟩, ⟨16, 2⟩] < 2 ^ 64 := by decide
  ⟨h, iovShorten_cut _ 5 h⟩

/-! ### `rw_copy_check_uvector` -/

/-- The segment loop of `rw_copy_check_uvector` (lines 687-708), `ret` bytes counted so far: the
value it returns and the segments as it leaves them. -/
def checkUvectorLoop (K : Kernel W) (rw : Rw) (checkAccess : Bool) :
    List Iovec → Int → Int × List Iovec
  | [], ret => (ret, [])
  | v :: vs, ret =>
    if toLoff v.len.toNat < 0 then (einval.neg, v :: vs)
    else if checkAccess = true ∧ K.accessOk rw.verifyWrite v.base v.len = false then
      (efault.neg, v :: vs)
    else if toLoff v.len.toNat > maxRwCount - ret then
      let r := checkUvectorLoop K rw checkAccess vs (ret + (maxRwCount - ret))
      (r.1, { v with len := UInt64.ofNat (maxRwCount - ret).toNat } :: r.2)
    else
      let r := checkUvectorLoop K rw checkAccess vs (ret + toLoff v.len.toNat)
      (r.1, v :: r.2)

/-- `rw_copy_check_uvector(type, uvector, nr_segs, fast_segs, fast_pointer, ret_pointer,
check_access)` (lines 638-712): the value it returns and the segments `*ret_pointer` holds, none
when it gives up before copying them in. -/
def rwCopyCheckUvector (K : Kernel W) (w : W) (rw : Rw) (uvector : Int) (nrSegs fastSegs : Nat)
    (checkAccess : Bool) : Int × List Iovec :=
  if nrSegs = 0 then (0, [])
  else if nrSegs > uioMaxiov then (einval.neg, [])
  else if nrSegs > fastSegs ∧ K.kmallocOk w = false then (enomem.neg, [])
  else match K.copyIovecs w uvector nrSegs with
    | none => (efault.neg, [])
    | some iov => checkUvectorLoop K rw checkAccess iov 0

/-- A segment `rw_copy_check_uvector` passes: its length is a `ssize_t` and, when access is
checked, its buffer passes `access_ok`. -/
def SegmentOk (K : Kernel W) (rw : Rw) (checkAccess : Bool) (v : Iovec) : Prop :=
  v.len.toNat < 2 ^ 63 ∧ (checkAccess = true → K.accessOk rw.verifyWrite v.base v.len = true)

theorem checkUvectorLoop_eq (K : Kernel W) (rw : Rw) (checkAccess : Bool) :
    ∀ (vs : List Iovec) (ret : Int), 0 ≤ ret → ret ≤ maxRwCount →
      (∀ v ∈ vs, SegmentOk K rw checkAccess v) →
      checkUvectorLoop K rw checkAccess vs ret =
        (ret + (min (maxRwCount - ret.toNat) (totalLen vs) : Nat),
          cutVector vs (maxRwCount - ret.toNat))
  | [], ret, h0, _, _ => by simp [checkUvectorLoop, cutVector]
  | v :: vs, ret, h0, hmax, hok => by
    obtain ⟨hlen, hacc⟩ := hok v (.head _)
    have hrest := fun v' h => hok v' (List.mem_cons_of_mem _ h)
    have hv : toLoff v.len.toNat = v.len.toNat := toLoff_of_inLoff ⟨by omega, by omega⟩
    have hacc' : ¬(checkAccess = true ∧ K.accessOk rw.verifyWrite v.base v.len = false) :=
      fun h => absurd (hacc h.1) (by rw [h.2]; decide)
    rw [checkUvectorLoop, if_neg (show ¬toLoff v.len.toNat < 0 by omega), if_neg hacc', hv]
    by_cases hcap : (v.len.toNat : Int) > maxRwCount - ret
    · rw [if_pos hcap, checkUvectorLoop_eq K rw checkAccess vs _ (by omega) (by omega) hrest,
        cutVector_cons_of_lt vs (by omega)]
      simp only [Prod.mk.injEq, List.cons.injEq]
      refine ⟨by rw [totalLen_cons]; omega, by rw [show (maxRwCount - ret).toNat = maxRwCount - ret.toNat by omega], ?_⟩
      rw [show (ret + (maxRwCount - ret)).toNat = maxRwCount by omega, Nat.sub_self]
    · rw [if_neg hcap, checkUvectorLoop_eq K rw checkAccess vs _ (by omega) (by omega) hrest,
        cutVector_cons_of_le vs (by omega)]
      simp only [Prod.mk.injEq, List.cons.injEq]
      refine ⟨by rw [totalLen_cons]; omega, trivial, ?_⟩
      rw [show (ret + v.len.toNat).toNat = ret.toNat + v.len.toNat by omega, Nat.sub_add_eq]

theorem checkUvectorLoop_ok (K : Kernel W) (rw : Rw) (checkAccess : Bool) :
    ∀ (vs : List Iovec) (ret : Int), 0 ≤ ret → ret ≤ maxRwCount →
      0 ≤ (checkUvectorLoop K rw checkAccess vs ret).1 → ∀ v ∈ vs, SegmentOk K rw checkAccess v
  | [], _, _, _, _ => by simp
  | v :: vs, ret, h0, hmax, h => by
    have hv := uint64_toNat_lt v.len
    rw [checkUvectorLoop] at h
    split_ifs at h with hneg hacc hcap
    · exact absurd h (Int.not_le.mpr (Errno.neg_lt_zero einval))
    · exact absurd h (Int.not_le.mpr (Errno.neg_lt_zero efault))
    all_goals
      have hok : SegmentOk K rw checkAccess v :=
        ⟨by unfold toLoff at hneg; omega, fun hc => Bool.eq_true_of_not_eq_false fun hb => hacc ⟨hc, hb⟩⟩
      refine List.forall_mem_cons.mpr ⟨hok, checkUvectorLoop_ok K rw checkAccess vs _ ?_ ?_ h⟩
    all_goals omega

/-- What `rw_copy_check_uvector` leaves when it succeeds: a vector of as many bytes as it returns,
at most `MAX_RW_COUNT`. -/
theorem rwCopyCheckUvector_of_nonneg {K : Kernel W} {w : W} {rw : Rw} {uvector : Int}
    {nrSegs fastSegs : Nat} {checkAccess : Bool}
    (h : 0 ≤ (rwCopyCheckUvector K w rw uvector nrSegs fastSegs checkAccess).1) :
    totalLen (rwCopyCheckUvector K w rw uvector nrSegs fastSegs checkAccess).2 =
        (rwCopyCheckUvector K w rw uvector nrSegs fastSegs checkAccess).1.toNat ∧
      (rwCopyCheckUvector K w rw uvector nrSegs fastSegs checkAccess).1 ≤ maxRwCount := by
  revert h
  unfold rwCopyCheckUvector
  split_ifs
  · intro; simp [maxRwCount]
  · exact fun h => absurd h (Int.not_le.mpr (Errno.neg_lt_zero einval))
  · exact fun h => absurd h (Int.not_le.mpr (Errno.neg_lt_zero enomem))
  split
  · exact fun h => absurd h (Int.not_le.mpr (Errno.neg_lt_zero efault))
  · next iov _ =>
    intro h
    rw [checkUvectorLoop_eq K rw checkAccess iov 0 (Int.le_refl 0) (by simp [maxRwCount])
      (checkUvectorLoop_ok K rw checkAccess iov 0 (Int.le_refl 0) (by simp [maxRwCount]) h)]
    simp only [totalLen_cutVector]
    omega

/-- `rw_copy_check_uvector` in full: no segments give 0; a vector of at most `UIO_MAXIOV` segments
that can be allocated and copied in, each a `ssize_t` long in accessible memory, gives its bytes
capped at `MAX_RW_COUNT` and is left cut to them; and it succeeds on no other. -/
theorem rwCopyCheckUvector_spec (K : Kernel W) (w : W) (rw : Rw) (uvector : Int)
    (nrSegs fastSegs : Nat) (checkAccess : Bool) :
    (nrSegs = 0 → rwCopyCheckUvector K w rw uvector nrSegs fastSegs checkAccess = (0, [])) ∧
      (∀ iov, 0 < nrSegs → nrSegs ≤ uioMaxiov → (fastSegs < nrSegs → K.kmallocOk w = true) →
        K.copyIovecs w uvector nrSegs = some iov → (∀ v ∈ iov, SegmentOk K rw checkAccess v) →
        rwCopyCheckUvector K w rw uvector nrSegs fastSegs checkAccess =
          (((min (totalLen iov) maxRwCount : Nat) : Int), cutVector iov maxRwCount)) ∧
      (0 ≤ (rwCopyCheckUvector K w rw uvector nrSegs fastSegs checkAccess).1 →
        nrSegs = 0 ∨ nrSegs ≤ uioMaxiov ∧ (fastSegs < nrSegs → K.kmallocOk w = true) ∧
          ∃ iov, K.copyIovecs w uvector nrSegs = some iov ∧ ∀ v ∈ iov, SegmentOk K rw checkAccess v) := by
  have hmax : (0 : Int) ≤ maxRwCount := by simp [maxRwCount]
  refine ⟨fun h => by simp [rwCopyCheckUvector, h], fun iov h0 hmx hk hc hok => ?_, fun h => ?_⟩
  · have hk' : ¬(nrSegs > fastSegs ∧ K.kmallocOk w = false) := fun h => by simp [hk h.1] at h
    unfold rwCopyCheckUvector
    rw [if_neg (show ¬nrSegs = 0 by omega), if_neg (show ¬nrSegs > uioMaxiov by omega), if_neg hk', hc]
    dsimp only
    rw [checkUvectorLoop_eq K rw checkAccess iov 0 (Int.le_refl 0) hmax hok, Int.toNat_zero,
      Nat.sub_zero, Int.zero_add, Nat.min_comm]
  · revert h
    unfold rwCopyCheckUvector
    split_ifs with h0 hmx hk
    · exact fun _ => .inl h0
    · exact fun h => absurd h (Int.not_le.mpr (Errno.neg_lt_zero einval))
    · exact fun h => absurd h (Int.not_le.mpr (Errno.neg_lt_zero enomem))
    split
    · exact fun h => absurd h (Int.not_le.mpr (Errno.neg_lt_zero efault))
    · next iov hc =>
      exact fun h => .inr ⟨Nat.le_of_not_lt hmx, fun hf => Bool.eq_true_of_not_eq_false fun hb => hk ⟨hf, hb⟩,
        iov, hc, checkUvectorLoop_ok K rw checkAccess iov 0 (Int.le_refl 0) hmax h⟩

/-! ### Moving a vector -/

/-- `do_loop_readv_writev(filp, iov, nr_segs, ppos, fn)` (lines 604-633) from `ret` bytes moved:
one call of `fn` per segment, up to the first error or short transfer.  `ret` is an `ssize_t`, and
`ret += nr` wraps. -/
def doLoopReadvWritev (fn : IoFn W) : W → List Iovec → Int → Int → Int × Int × W
  | w, [], pos, ret => (ret, pos, w)
  | w, v :: vs, pos, ret =>
    let (nr, pos, w) := fn w v.base v.len pos
    if nr < 0 then (if ret = 0 then nr else ret, pos, w)
    else if nr ≠ v.len.toNat then (toLoff (ret + nr), pos, w)
    else doLoopReadvWritev fn w vs pos (toLoff (ret + nr))

/-- `do_sync_readv_writev(filp, iov, nr_segs, len, ppos, fn)` (lines 579-601): the `aio` method on
the whole vector, its `-EIOCBRETRY` retries and `-EIOCBQUEUED` wait taken as driven to their end. -/
def doSyncReadvWritev (fnv : IovFn W) (w : W) (iov : List Iovec) (len : UInt64) (pos : Int) :
    Int × Int × W :=
  fnv w iov len pos

example : (doLoopReadvWritev (fun (_ : Unit) _ len pos => ((len.toNat : Int), pos, ())) ()
    [⟨0, 0x7fffffffffffffff⟩] 0 1).1 = -2 ^ 63 := by
  decide

/-- `do_loop_readv_writev` moves the position by at most the vector's bytes, when each call of the
method does so by at most its segment's. -/
theorem doLoopReadvWritev_advances {fn : IoFn W} (hfn : IoFn.Advances fn) :
    ∀ (w : W) (vs : List Iovec) (pos ret : Int),
      pos ≤ (doLoopReadvWritev fn w vs pos ret).2.1 ∧
        (doLoopReadvWritev fn w vs pos ret).2.1 ≤ pos + totalLen vs
  | _, [], _, _ => by simp [doLoopReadvWritev]
  | w, v :: vs, pos, ret => by
    rcases ht : fn w v.base v.len pos with ⟨nr, p, w'⟩
    have hv : pos ≤ p ∧ p ≤ pos + v.len.toNat := by simpa [ht] using hfn w v.base v.len pos
    have hrest := doLoopReadvWritev_advances hfn w' vs p (toLoff (ret + nr))
    simp only [doLoopReadvWritev, ht, totalLen_cons, apply_ite (fun r : Int × Int × W => r.2.1)]
    split_ifs <;> omega

end SearchSyscall
