import SearchSyscall.Fs

/-!
# The state of one search

`DirSearch` holds the fields of `struct dir_search` that change during a search — `status`,
`results`, the shared path buffer `path`, `base`, the output cursor `next` (as an offset from `buf`)
and the remaining length `len` — with the caller's memory and four records that no code reads but
that say what the search did:

* `emitted`, the records `copy_search_result` placed in the buffer, and `hits`, the node each
  record of the walk or of the literal shortcut reports;
* `writes`, every range `(address, length)` a copy to the caller's memory was asked to write;
* `events`, every acquisition and release of a resource (strings from `getname`, allocations,
  open files, looked-up paths), each open file or path with a fresh number;
* `longest`, the longest string `path` has held, so that `longest ≤ PATH_MAX` says that its NUL
  always fit in `char path[PATH_MAX+1]`.

The per-depth frames `ds->dirs[n]` are the local variables of the walk's recursive calls.
-/

namespace SearchSyscall

/-- Which `getname` string a resource is. -/
inductive NameArg where
  | paths
  | pattern
  deriving DecidableEq, Repr

/-- A resource a search acquires. A `getname` string is named by the pointer: the string and the
offset from the start `getname` returned. -/
inductive Res where
  | ds
  | dirs
  | name (arg : NameArg) (offset : Nat)
  | file (id : Nat)
  | path (id : Nat)
  | pathbuf (id : Nat)
  deriving DecidableEq, Repr

/-- An acquisition or a release. -/
inductive Event where
  | acquire (r : Res)
  | release (r : Res)
  deriving DecidableEq, Repr

/-- The changing fields of `struct dir_search`, the caller's memory, and the records of what the
search did. -/
structure DirSearch where
  status : Int
  results : Int
  path : List Char
  base : Nat
  next : Int
  len : Nat
  mem : UserMem
  emitted : List SearchRecord
  hits : List Loc
  writes : List (Int × Nat)
  events : List Event
  fresh : Nat
  longest : Nat

/-- The fields of the state that say what the search has output: the count, the cursor, the
remaining length, the caller's memory, and the records of what was emitted, reported and written. -/
structure Ledger where
  results : Int
  next : Int
  len : Nat
  mem : UserMem
  emitted : List SearchRecord
  hits : List Loc
  writes : List (Int × Nat)

namespace DirSearch

/-- The output fields of a state. -/
def ledger (ds : DirSearch) : Ledger :=
  ⟨ds.results, ds.next, ds.len, ds.mem, ds.emitted, ds.hits, ds.writes⟩

/-- A fresh number for a resource. -/
def newId (ds : DirSearch) : Nat × DirSearch := (ds.fresh, { ds with fresh := ds.fresh + 1 })

def acquire (ds : DirSearch) (r : Res) : DirSearch := { ds with events := ds.events ++ [.acquire r] }

def release (ds : DirSearch) (r : Res) : DirSearch := { ds with events := ds.events ++ [.release r] }

@[simp] theorem ledger_newId (ds : DirSearch) : ds.newId.2.ledger = ds.ledger := rfl

@[simp] theorem newId_path (ds : DirSearch) : ds.newId.2.path = ds.path := rfl

@[simp] theorem newId_base (ds : DirSearch) : ds.newId.2.base = ds.base := rfl

@[simp] theorem ledger_acquire (ds : DirSearch) (r : Res) : (ds.acquire r).ledger = ds.ledger := rfl

@[simp] theorem ledger_release (ds : DirSearch) (r : Res) : (ds.release r).ledger = ds.ledger := rfl

@[simp] theorem acquire_path (ds : DirSearch) (r : Res) : (ds.acquire r).path = ds.path := rfl

@[simp] theorem release_path (ds : DirSearch) (r : Res) : (ds.release r).path = ds.path := rfl

@[simp] theorem acquire_base (ds : DirSearch) (r : Res) : (ds.acquire r).base = ds.base := rfl

@[simp] theorem release_base (ds : DirSearch) (r : Res) : (ds.release r).base = ds.base := rfl

/-- Store a new string in the path buffer (`strcpy`, the `memmove` of `abspath`). -/
def setPath (ds : DirSearch) (p : List Char) : DirSearch :=
  { ds with path := p, longest := max ds.longest p.length }

@[simp] theorem setPath_path (ds : DirSearch) (p : List Char) : (ds.setPath p).path = p := rfl

@[simp] theorem ledger_setPath (ds : DirSearch) (p : List Char) : (ds.setPath p).ledger = ds.ledger :=
  rfl

/-- `strcat(ds->path, s)`. -/
def strcat (ds : DirSearch) (s : List Char) : DirSearch := ds.setPath (ds.path ++ s)

@[simp] theorem strcat_path (ds : DirSearch) (s : List Char) : (ds.strcat s).path = ds.path ++ s := rfl

@[simp] theorem strcat_base (ds : DirSearch) (s : List Char) : (ds.strcat s).base = ds.base := rfl

@[simp] theorem ledger_strcat (ds : DirSearch) (s : List Char) : (ds.strcat s).ledger = ds.ledger :=
  rfl

/-- `copy_to_user(addr, data, length)`, recorded in `writes`: the bytes left uncopied. -/
def userWrite (ds : DirSearch) (addr : Int) (data : List Char) : Nat × DirSearch :=
  let (mem, left) := ds.mem.copyToUser addr data
  (left, { ds with mem := mem, writes := ds.writes ++ [(addr, data.length)] })

end DirSearch

/-- `size_t` subtraction. -/
def sizeSub (a b : Nat) : Nat := (a + (2 ^ 64 - b % 2 ^ 64)) % 2 ^ 64

/-- `copy_search_result(ds, &ds->next, &ds->len, path, stat)`: format the record, and copy it with
two NUL bytes if they fit in the remaining length; the cursor then moves past the record only, so
that the next record overwrites the two NUL bytes. -/
def copySearchResult (flags : Nat) (path : List Char) (st : Kstat) (ds : DirSearch) :
    Int × DirSearch :=
  let r := searchRecord flags path st
  let text := recordText r
  if text.length + 2 ≤ ds.len then
    let (left, ds) := ds.userWrite ds.next (text ++ ['\x00', '\x00'])
    if left = 0 then
      (0, { ds with next := ds.next + text.length, len := ds.len - text.length,
                    emitted := ds.emitted ++ [r] })
    else (efault.neg, ds)
  else (erange.neg, ds)

/-- The state after `copy_search_result` placed the record `r`. -/
def DirSearch.wrote (ds : DirSearch) (r : SearchRecord) : DirSearch :=
  { ds with
    mem := ds.mem.writeBytes ds.next (recordText r ++ ['\x00', '\x00'])
    writes := ds.writes ++ [(ds.next, (recordText r).length + 2)]
    next := ds.next + (recordText r).length
    len := ds.len - (recordText r).length
    emitted := ds.emitted ++ [r] }

/-- What `copy_search_result` can do: place the record when it fits with its NUL pair and every byte
can be written, or fail with a negative status, leaving everything but the bytes at and after the
cursor and the record of the attempted write as it was. -/
theorem copySearchResult_cases (flags : Nat) (path : List Char) (st : Kstat) (ds : DirSearch) :
    let r := searchRecord flags path st
    (copySearchResult flags path st ds = (0, ds.wrote r) ∧ (recordText r).length + 2 ≤ ds.len ∧
      ∀ i : Nat, i < (recordText r).length + 2 → ds.mem.writable (ds.next + i)) ∨
    ((copySearchResult flags path st ds).1 < 0 ∧
      (copySearchResult flags path st ds).2 = ds ∨
      (copySearchResult flags path st ds).1 < 0 ∧ (recordText r).length + 2 ≤ ds.len ∧
      (copySearchResult flags path st ds).2 =
        { ds with mem := (ds.mem.copyToUser ds.next (recordText r ++ ['\x00', '\x00'])).1,
                  writes := ds.writes ++ [(ds.next, (recordText r).length + 2)] }) := by
  intro r
  unfold copySearchResult
  by_cases hfit : (recordText r).length + 2 ≤ ds.len
  · simp only [hfit, if_true, DirSearch.userWrite]
    by_cases hw : ∀ i : Nat, i < (recordText r).length + 2 → ds.mem.writable (ds.next + i)
    · left
      have hc := UserMem.copyToUser_eq_of_writable ds.mem ds.next (recordText r ++ ['\x00', '\x00'])
        (by simpa only [List.length_append, List.length_cons, List.length_nil] using hw)
      simp only [hc, if_true]
      exact ⟨by simp [DirSearch.wrote, r], trivial, hw⟩
    · have hne : (ds.mem.copyToUser ds.next (recordText r ++ ['\x00', '\x00'])).2 ≠ 0 := by
        rw [Ne, UserMem.copyToUser_snd_eq_zero]
        simpa only [List.length_append, List.length_cons, List.length_nil] using hw
      right; right
      simp only [hne, if_false]
      exact ⟨Errno.neg_lt_zero _, trivial, by simp⟩
  · right; left
    simp only [hfit, if_false]
    exact ⟨Errno.neg_lt_zero _, trivial⟩

end SearchSyscall
