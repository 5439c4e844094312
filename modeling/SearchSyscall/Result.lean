import SearchSyscall.Basic

/-!
# Result records and the caller's memory

`copy_search_result` formats one match with `sprintf` into `ds->result` and copies it, with two NUL
bytes, to the caller's buffer.

* `Kstat` holds the fields of `struct kstat` the format reads, with their kernel widths, and
  `statFields` the thirteen numbers `sprintf` prints after the casts of the source
  (`(ssize_t)huge_encode_dev(dev)`, `(int)mode`, …).
* `SearchRecord` is what one record says (its path field and, under `SEARCH_METADATA`, the numbers),
  and `recordText` the text `sprintf` produces from it: `0|path|meta|`.
* `UserMem` is the caller's memory, with the addresses it can write; `copyToUser` copies byte by byte
  until the first address it cannot write and returns the number of bytes left uncopied, as
  `copy_to_user` does.  Addresses are offsets from the start `buf` of the caller's buffer.
-/

namespace SearchSyscall

/-! ### `struct kstat` and its printed fields -/

/-- The fields of `struct kstat` that `copy_search_result` prints. -/
structure Kstat where
  dev : UInt32
  ino : UInt64
  mode : UInt16
  nlink : UInt32
  uid : UInt32
  gid : UInt32
  rdev : UInt32
  size : Int
  atime : Int
  mtime : Int
  ctime : Int
  blksize : UInt64
  blocks : UInt64
  deriving DecidableEq, Repr

/-- The `kstat` that `memset(&stat, 0, sizeof(struct kstat))` leaves. -/
def Kstat.zero : Kstat := ⟨0, 0, 0, 0, 0, 0, 0, 0, 0, 0, 0, 0, 0⟩

/-- `new_encode_dev(dev)`, which `huge_encode_dev` returns: minor low byte, major, minor high bits. -/
def newEncodeDev (dev : UInt32) : UInt32 :=
  let major := dev >>> (20 : UInt32)
  let minor := dev &&& (((1 : UInt32) <<< 20) - 1)
  (minor &&& (0xff : UInt32)) ||| (major <<< (8 : UInt32)) ||| ((minor &&& ~~~(0xff : UInt32)) <<< (12 : UInt32))

/-- The cast of a 64-bit unsigned value to `ssize_t`. -/
def toSsize (x : UInt64) : Int := if x.toNat < 2 ^ 63 then x.toNat else (x.toNat : Int) - 2 ^ 64

/-- The cast of a 32-bit unsigned value to `int`. -/
def toInt32 (x : UInt32) : Int := if x.toNat < 2 ^ 31 then x.toNat else (x.toNat : Int) - 2 ^ 32

/-- The thirteen values of the `SEARCH_METADATA` format, in order. -/
def statFields (st : Kstat) : List Int :=
  [(newEncodeDev st.dev).toNat, toSsize st.ino, st.mode.toNat, st.nlink.toNat, toInt32 st.uid,
    toInt32 st.gid, (newEncodeDev st.rdev).toNat, st.size, st.atime, st.mtime, st.ctime,
    toSsize st.blksize, toSsize st.blocks]

/-! ### Records -/

/-- `%d` / `%zd`: the decimal digits, after a `-` for a negative value. -/
def fmtInt (i : Int) : List Char :=
  if i < 0 then '-' :: Nat.toDigits 10 i.natAbs else Nat.toDigits 10 i.natAbs

/-- One record: its path field and, under `SEARCH_METADATA`, its numbers. -/
structure SearchRecord where
  path : List Char
  meta : Option (List Int)
  deriving DecidableEq, Repr

/-- The metadata field: the numbers separated by `,`, or nothing. -/
def metaText : Option (List Int) → List Char
  | none => []
  | some l => [','].intercalate (l.map fmtInt)

/-- The text `sprintf` writes into `ds->result`: `0|path|meta|`. -/
def recordText (r : SearchRecord) : List Char :=
  "0|".toList ++ r.path ++ ['|'] ++ metaText r.meta ++ ['|']

/-- The record `copy_search_result` formats for `path` and `stat` under `flags`. -/
def searchRecord (flags : Nat) (path : List Char) (st : Kstat) : SearchRecord :=
  ⟨path, if hasFlag flags searchMetadata then some (statFields st) else none⟩

@[simp] theorem length_recordText (r : SearchRecord) :
    (recordText r).length = r.path.length + (metaText r.meta).length + 4 := by
  simp [recordText]; omega

/-! ### The caller's memory -/

/-- The caller's memory: which addresses a copy can write, and the bytes. -/
structure UserMem where
  writable : Int → Bool
  bytes : Int → Char

/-- Store `data` from `addr` on. -/
def UserMem.writeBytes (m : UserMem) (addr : Int) : List Char → UserMem
  | [] => m
  | b :: rest => UserMem.writeBytes ⟨m.writable, Function.update m.bytes addr b⟩ (addr + 1) rest

/-- `copy_to_user(addr, data, length)`: copy until the first address that cannot be written; the
bytes left uncopied. -/
def UserMem.copyToUser (m : UserMem) (addr : Int) : List Char → UserMem × Nat
  | [] => (m, 0)
  | b :: rest =>
    if m.writable addr then UserMem.copyToUser ⟨m.writable, Function.update m.bytes addr b⟩ (addr + 1) rest
    else (m, rest.length + 1)

/-- The `n` bytes of `m` from `addr` on. -/
def UserMem.readBytes (m : UserMem) (addr : Int) : Nat → List Char
  | 0 => []
  | n + 1 => m.bytes addr :: m.readBytes (addr + 1) n

@[simp] theorem UserMem.writable_writeBytes (m : UserMem) (addr : Int) (data : List Char) :
    (m.writeBytes addr data).writable = m.writable := by
  induction data generalizing m addr with
  | nil => rfl
  | cons b rest ih => simp [writeBytes, ih]

theorem UserMem.bytes_writeBytes_of_outside (m : UserMem) (addr q : Int) (data : List Char)
    (h : q < addr ∨ addr + data.length ≤ q) : (m.writeBytes addr data).bytes q = m.bytes q := by
  induction data generalizing m addr with
  | nil => rfl
  | cons b rest ih =>
    simp only [List.length_cons] at h
    simp only [writeBytes]
    rw [ih _ _ (by omega)]
    exact Function.update_noteq (by omega) _ _

/-- Shifting the index of a hypothesis about the bytes from `addr` to those from `addr + 1`. -/
private theorem forall_succ (p : Int → Prop) {addr : Int} {n : Nat}
    (h : ∀ i : Nat, i < n + 1 → p (addr + i)) : p addr ∧ ∀ i : Nat, i < n → p (addr + 1 + i) :=
  ⟨by simpa using h 0 (by omega), fun i hi => by
    have := h (i + 1) (by omega); rwa [show addr + ((i + 1 : Nat) : Int) = addr + 1 + i by omega] at this⟩

/-- A copy that can write every address stores all of its bytes. -/
theorem UserMem.copyToUser_eq_of_writable (m : UserMem) (addr : Int) (data : List Char)
    (h : ∀ i : Nat, i < data.length → m.writable (addr + i)) :
    m.copyToUser addr data = (m.writeBytes addr data, 0) := by
  induction data generalizing m addr with
  | nil => rfl
  | cons b rest ih =>
    obtain ⟨h0, h1⟩ := forall_succ (fun a => m.writable a = true) h
    simp only [copyToUser, h0, if_true, writeBytes]
    exact ih _ _ h1

/-- A copy leaves nothing uncopied exactly when it can write every address. -/
theorem UserMem.copyToUser_snd_eq_zero (m : UserMem) (addr : Int) (data : List Char) :
    (m.copyToUser addr data).2 = 0 ↔ ∀ i : Nat, i < data.length → m.writable (addr + i) := by
  induction data generalizing m addr with
  | nil => simp [copyToUser]
  | cons b rest ih =>
    by_cases h0 : m.writable addr
    · simp only [copyToUser, h0, if_true, ih]
      constructor
      · intro h i hi
        cases i with
        | zero => simpa using h0
        | succ i =>
          have := h i (by simp at hi; omega)
          rwa [show addr + 1 + (i : Int) = addr + ((i + 1 : Nat) : Int) by omega] at this
      · intro h; exact (forall_succ (fun a => m.writable a = true) h).2
    · simp only [copyToUser, h0, Bool.false_eq_true, if_false, List.length_cons,
        Nat.add_one_ne_zero, false_iff, not_forall]
      exact ⟨0, by simp, by simpa using h0⟩

theorem UserMem.readBytes_add (m : UserMem) (a : Int) (k n : Nat) :
    m.readBytes a (k + n) = m.readBytes a k ++ m.readBytes (a + k) n := by
  induction k generalizing a with
  | zero => simp [readBytes]
  | succ k ih =>
    rw [show k + 1 + n = (k + n) + 1 by omega, readBytes, readBytes, ih]
    simp only [List.cons_append]
    congr 2; congr 1; omega

@[simp] theorem UserMem.length_readBytes (m : UserMem) (a : Int) (k : Nat) :
    (m.readBytes a k).length = k := by
  induction k generalizing a with
  | zero => rfl
  | succ k ih => simp [readBytes, ih]

/-- A shorter read is a prefix of a longer one. -/
theorem UserMem.readBytes_of_le (m : UserMem) (a : Int) {k n : Nat} (h : k ≤ n) :
    m.readBytes a k = (m.readBytes a n).take k := by
  obtain ⟨d, rfl⟩ := Nat.exists_eq_add_of_le h
  rw [readBytes_add, List.take_left' (length_readBytes m a k)]

/-- Reading below a write sees the old bytes. -/
theorem UserMem.readBytes_writeBytes_of_le (m : UserMem) {a addr : Int} {k : Nat} (data : List Char)
    (h : a + k ≤ addr) : (m.writeBytes addr data).readBytes a k = m.readBytes a k := by
  induction k generalizing a with
  | zero => rfl
  | succ k ih =>
    simp only [readBytes]
    rw [bytes_writeBytes_of_outside _ _ _ _ (.inl (by omega)), ih (by omega)]

theorem UserMem.readBytes_writeBytes_append (m : UserMem) (addr : Int) (d₁ d₂ : List Char) :
    (m.writeBytes addr (d₁ ++ d₂)).readBytes addr d₁.length = d₁ := by
  induction d₁ generalizing m addr with
  | nil => rfl
  | cons b rest ih =>
    rw [List.cons_append, writeBytes, List.length_cons, readBytes, ih,
      bytes_writeBytes_of_outside _ _ _ _ (.inl (by omega))]
    simp

@[simp] theorem UserMem.writable_copyToUser (m : UserMem) (addr : Int) (data : List Char) :
    (m.copyToUser addr data).1.writable = m.writable := by
  induction data generalizing m addr with
  | nil => rfl
  | cons b rest ih =>
    simp only [copyToUser]; split
    · rw [ih]
    · rfl

/-- A copy changes no byte below its address. -/
private theorem UserMem.bytes_copyToUser_of_lt (m : UserMem) {addr q : Int} (data : List Char) (h : q < addr) :
    (m.copyToUser addr data).1.bytes q = m.bytes q := by
  induction data generalizing m addr with
  | nil => rfl
  | cons b rest ih =>
    simp only [copyToUser]; split
    · rw [ih _ (by omega)]; exact Function.update_noteq (by omega) _ _
    · rfl

theorem UserMem.readBytes_copyToUser_of_le (m : UserMem) {a addr : Int} {k : Nat} (data : List Char)
    (h : a + k ≤ addr) : (m.copyToUser addr data).1.readBytes a k = m.readBytes a k := by
  induction k generalizing a with
  | zero => rfl
  | succ k ih =>
    simp only [readBytes]
    rw [bytes_copyToUser_of_lt _ _ (by omega), ih (by omega)]

end SearchSyscall
