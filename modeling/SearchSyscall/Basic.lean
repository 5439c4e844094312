import Mathlib.Data.List.Basic
import Mathlib.Algebra.Group.Int

/-!
# Constants, flags and error codes of the `search` system call

The data every layer of the model shares, as `fs/read_write.c` declares it:

* `SearchMatched`, the four outcomes of the pattern matcher (`enum search_matched`);
* the flag bits `SEARCH_STOPATFIRST`, `SEARCH_METADATA`, `SEARCH_INCLUDEROOT` and the declared but
  unread bits `SEARCH_PERIOD`, `SEARCH_R_OK`, `SEARCH_W_OK`, `SEARCH_X_OK`;
* the limits `TREE_DEPTH`, `PATH_MAX`, `NAME_MAX` and `SEARCH_BUF`;
* kernel error numbers, positive by construction, so that `-e` is always a negative status.

A C string is modelled by the list of its bytes before the terminating NUL: reading at the end of the
list reads the NUL.
-/

namespace SearchSyscall

/-- `enum search_matched`, one constructor per `SEARCH_MATCH_*` value. -/
inductive SearchMatched where
  | matchFailure
  | matchPartial
  | matchSuccess
  | matchOverflow
  deriving DecidableEq, Repr

/-- `TREE_DEPTH`: the walk does not open directories at depth 16 or more. -/
def treeDepth : Nat := 16

def pathMax : Nat := 4096
def nameMax : Nat := 255

/-- `SEARCH_BUF` = `PATH_MAX << 4`, the size of a frame's listing buffer. -/
def searchBuf : Nat := pathMax <<< 4

/-! ### Flags

The bits `SEARCH_STOPATFIRST` to `SEARCH_X_OK` of the `flags` argument; the last four are declared
and never read. -/

def searchStopatfirst : Nat := 1 <<< 0
def searchMetadata : Nat := 1 <<< 1
def searchIncluderoot : Nat := 1 <<< 2
def searchPeriod : Nat := 1 <<< 3
def searchROk : Nat := 1 <<< 4
def searchWOk : Nat := 1 <<< 5
def searchXOk : Nat := 1 <<< 6

/-- The C test `flags & bit`, on the bits of the `int flags` argument. -/
def hasFlag (flags bit : Nat) : Bool := flags &&& bit != 0

/-! ### Error numbers -/

/-- A kernel error number; a failing call returns its negation. -/
abbrev Errno := {e : Nat // 0 < e}

/-- The status a call failing with `e` returns. -/
def Errno.neg (e : Errno) : Int := -(e.val : Int)

theorem Errno.neg_lt_zero (e : Errno) : e.neg < 0 := by
  have := e.2
  simp only [Errno.neg]
  omega

/-! The error numbers the search reads, `EPERM` to `ENAMETOOLONG`. -/

def eperm : Errno := ⟨1, by decide⟩
def enoent : Errno := ⟨2, by decide⟩
def enomem : Errno := ⟨12, by decide⟩
def eacces : Errno := ⟨13, by decide⟩
def efault : Errno := ⟨14, by decide⟩
def enodev : Errno := ⟨19, by decide⟩
def enotdir : Errno := ⟨20, by decide⟩
def einval : Errno := ⟨22, by decide⟩
def erange : Errno := ⟨34, by decide⟩
def enametoolong : Errno := ⟨36, by decide⟩

/-! ### C strings over memory -/

/-- The C string at a pointer, given the bytes of memory from it on: the bytes before the first NUL
(memory past the bytes modelled reads as NUL). -/
def cString (s : List Char) : List Char := s.takeWhile (· != '\x00')

theorem cString_append_nul (junk : List Char) {s : List Char} (h : '\x00' ∉ s) :
    cString (s ++ '\x00' :: junk) = s := by
  rw [cString, List.takeWhile_append_of_pos fun _ ha => bne_iff_ne.mpr (ne_of_mem_of_not_mem ha h)]
  simp

end SearchSyscall
