import SearchSyscall.Basic

/-!
# File offsets, byte counts and the seek constants

The seek and transfer paths of `fs/read_write.c` (lines 38-1013) compute with `loff_t`, a signed
64-bit offset, with `size_t` and `ssize_t`, unsigned and signed 64-bit counts, and with `long`, 64
bits wide on the kernel modelled here.  A `size_t` is a `UInt64`; an offset is an integer, and each
C conversion or wrapping sum is the two's-complement reduction it performs:

* `toLoff x` is `x` as a `loff_t` (the kernel is built with `-fno-strict-overflow`, so a signed sum
  wraps), `toSize x` a `loff_t` converted to `size_t`, and `InLoff x` says that `x` is a `loff_t`
  value;
* `maxRwCount` is `MAX_RW_COUNT`, the cap of every transfer, `maxNonLfs` the offset bound of
  `sendfile` with an `off_t` offset, and `uioMaxiov`, `uioFastiov` the iovec limits;
* the `SEEK_*` origins, the `FMODE_*` bits this code reads, and the error numbers it returns.
-/

namespace SearchSyscall

/-! ### Offsets -/

/-- `(loff_t) x`: the 64-bit two's-complement value of `x`. -/
def toLoff (x : Int) : Int := (x + 2 ^ 63) % 2 ^ 64 - 2 ^ 63

/-- A `loff_t` value. -/
def InLoff (x : Int) : Prop := -2 ^ 63 ≤ x ∧ x < 2 ^ 63

instance (x : Int) : Decidable (InLoff x) := inferInstanceAs (Decidable (_ ∧ _))

/-- `(size_t) x`: a `loff_t` converted for an unsigned comparison or sum. -/
def toSize (x : Int) : Nat := (x % 2 ^ 64).toNat

theorem inLoff_toLoff (x : Int) : InLoff (toLoff x) := by
  unfold InLoff toLoff
  omega

theorem toLoff_of_inLoff {x : Int} (h : InLoff x) : toLoff x = x := by
  unfold InLoff at h
  unfold toLoff
  omega

/-- A sum of two offsets that does not leave the `loff_t` range does not wrap. -/
theorem toLoff_add_of_lt {x y : Int} (hx : 0 ≤ x) (hy : 0 ≤ y) (h : x + y < 2 ^ 63) :
    toLoff (x + y) = x + y :=
  toLoff_of_inLoff ⟨by omega, h⟩

/-- Wrapping only ever takes a value that is not below the range down. -/
theorem toLoff_le {x : Int} (h : -2 ^ 63 ≤ x) : toLoff x ≤ x := by
  unfold toLoff
  omega

/-- The unsigned value of a negative `loff_t` is `2^64` past it. -/
theorem toSize_of_neg {x : Int} (h : InLoff x) (hx : x < 0) : (toSize x : Int) = x + 2 ^ 64 := by
  unfold InLoff at h
  unfold toSize
  omega

theorem toSize_of_nonneg {x : Int} (h : InLoff x) (hx : 0 ≤ x) : (toSize x : Int) = x := by
  unfold InLoff at h
  unfold toSize
  omega

/-- A `loff_t` or `off_t` argument of a system call. -/
structure Loff where
  val : Int
  inLoff : InLoff val

/-- `(int) x`: the low 32 bits of `x`, as a signed value. -/
def toCInt (x : Int) : Int := (x + 2 ^ 31) % 2 ^ 32 - 2 ^ 31

/-- A `size_t` is below `2^64`. -/
theorem uint64_toNat_lt (x : UInt64) : x.toNat < 2 ^ 64 := x.toBitVec.isLt

theorem uint64_toNat_ofNat {n : Nat} (h : n < 2 ^ 64) : (UInt64.ofNat n).toNat = n := by
  show (BitVec.ofNat 64 n).toNat = n
  rw [BitVec.toNat_ofNat, Nat.mod_eq_of_lt h]

theorem uint64_ofNat_toNat (x : UInt64) : UInt64.ofNat x.toNat = x :=
  UInt64.toNat.inj (uint64_toNat_ofNat (uint64_toNat_lt x))

theorem uint64_toNat_add (a b : UInt64) : (a + b).toNat = (a.toNat + b.toNat) % 2 ^ 64 :=
  BitVec.toNat_add _ _

theorem uint64_toNat_sub (a b : UInt64) : (a - b).toNat = (2 ^ 64 - b.toNat + a.toNat) % 2 ^ 64 :=
  BitVec.toNat_sub _ _

theorem uint64_le_iff (a b : UInt64) : a ≤ b ↔ a.toNat ≤ b.toNat := by
  rw [UInt64.le_def]
  exact BitVec.le_def

/-! ### Limits -/

/-- `MAX_RW_COUNT` = `INT_MAX & PAGE_CACHE_MASK` with 4 KiB pages: the most bytes one transfer
moves. -/
def maxRwCount : Nat := 0x7ffff000

/-- `MAX_NON_LFS` = `(1UL << 31) - 1`, the largest offset `sendfile` with an `off_t` pointer
reaches. -/
def maxNonLfs : Int := 2 ^ 31 - 1

/-- `UIO_MAXIOV`, the most segments a vector may have. -/
def uioMaxiov : Nat := 1024

/-- `UIO_FASTIOV`, the segments `do_readv_writev` keeps on its stack. -/
def uioFastiov : Nat := 8

/-! ### Seek origins

`SEEK_SET` to `SEEK_HOLE`, and `SEEK_MAX` = `SEEK_HOLE`. -/

def seekSet : Nat := 0
def seekCur : Nat := 1
def seekEnd : Nat := 2
def seekData : Nat := 3
def seekHole : Nat := 4
def seekMax : Nat := seekHole

/-! ### Mode bits of an open file

`FMODE_READ` to `FMODE_PWRITE`. -/

def fmodeRead : Nat := 0x1
def fmodeWrite : Nat := 0x2
def fmodeLseek : Nat := 0x4
def fmodePread : Nat := 0x8
def fmodePwrite : Nat := 0x10

/-- `FMODE_UNSIGNED_OFFSET`: the file's offsets are unsigned (`/dev/mem`, `/proc/<pid>/mem`). -/
def fmodeUnsignedOffset : Nat := 0x2000

/-! ### Error numbers

`ENXIO`, `EBADF`, `ESPIPE` and `EOVERFLOW`, besides those of the search. -/

def enxio : Errno := ⟨6, by decide⟩
def ebadf : Errno := ⟨9, by decide⟩
def espipe : Errno := ⟨29, by decide⟩
def eoverflow : Errno := ⟨75, by decide⟩

end SearchSyscall
