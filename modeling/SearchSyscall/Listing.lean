import SearchSyscall.Fs

/-!
# The listing buffer of a frame

Each `vfs_readdir` call of a level (line 1353) hands the entries it lists to `search_filldir`
(lines 1185-1205), which appends a record to the frame's buffer `entries[SEARCH_BUF]`: a type byte,
`d` for `DT_DIR` and `o` for any other type, then the name and a NUL, and one more NUL that ends
the listing until the next record overwrites it.  The entry loop (lines 1357-1361) reads the records
back.  The walk (`readEntries`) takes each `vfs_readdir` call as the list of `Dirent`s it lists;
this module is the byte level under it.

* `Frame` is the buffer, as the bytes of memory from `entries` on, and the cursor `next`;
  `searchFilldir` is one call, `filldirRun` the calls on a frame reset to `next = entries`, and
  `listedEntries` the entry loop.
* `Listed f es`: the buffer holds the records of `es`, then a NUL.  A call whose name is
  NUL-terminated at `namelen` either returns `-EINVAL` and stores nothing or appends its record
  (`searchFilldir_listed`) with every store inside the buffer (`filldirStores_le`), and the entry
  loop reads the records back (`listedEntries_of_listed`): over any run, the loop visits the accepted
  entries in call order (`listedEntries_filldirRun`).
* `strcpy` copies the name up to its first NUL, not `namelen` bytes, and the record's NUL is the
  byte `name[namelen]` (`searchFilldir_record`): a name not terminated there runs into the next
  record, and its copy can pass the end of the buffer (`filldir_unterminated_name`).
-/

namespace SearchSyscall

/-- `DT_DIR`, the `d_type` of a directory entry. -/
def dtDir : Nat := 4

/-- The bytes of memory after storing `data` from the offset `o` on; memory past the bytes modelled
reads as NUL. -/
def writeAt (mem : List Char) (o : Nat) (data : List Char) : List Char :=
  mem.take o ++ List.replicate (o - mem.length) '\x00' ++ data ++ mem.drop (o + data.length)

/-- A frame's listing buffer: the bytes of memory from `ds->dirs[n].entries` on (the `SEARCH_BUF`
bytes of the buffer, then the fields of the frame after it), and `ds->dirs[n].next` as an offset
from `entries`. -/
structure Frame where
  bytes : List Char
  next : Nat
  deriving DecidableEq, Repr

/-- One call `search_filldir(ds, name, namelen, offset, ino, d_type)`: the bytes of memory from
`name` on, `namelen` and `d_type`; the offset and the inode number are not read. -/
structure FilldirCall where
  name : List Char
  namelen : Nat
  dType : Nat
  deriving DecidableEq, Repr

/-- The type byte of a call's record: `d` when `d_type == DT_DIR`, else `o`. -/
def FilldirCall.typeByte (c : FilldirCall) : Char := if c.dType = dtDir then 'd' else 'o'

/-- The stores of a call that is accepted, as `(offset, bytes)` in the order made:
`strcpy(ds->next, "d")` (or `"o"`); after `ds->next += 1`, `strcpy(ds->next, name)`, the name up to
its first NUL and that NUL; after `ds->next += namelen+1`, `*ds->next = '\0'`. -/
def filldirStores (next : Nat) (c : FilldirCall) : List (Nat × List Char) :=
  [(next, [c.typeByte, '\x00']),
   (next + 1, cString c.name ++ ['\x00']),
   (next + 1 + (c.namelen + 1), ['\x00'])]

/-- `search_filldir` on the frame `f`: `-EINVAL` with nothing stored when
`(int)(SEARCH_BUF-(ds->next-ds->entries)) < namelen+3` (`namelen + 3` taken without overflow),
else `0` with the stores made and `next` advanced past the name's NUL. -/
def searchFilldir (f : Frame) (c : FilldirCall) : Int × Frame :=
  if (searchBuf : Int) - f.next < c.namelen + 3 then (einval.neg, f)
  else (0, ⟨(filldirStores f.next c).foldl (fun m s => writeAt m s.1 s.2) f.bytes,
    f.next + 1 + (c.namelen + 1)⟩)

/-- The calls of one `vfs_readdir` on the frame `f`: what each returns, and the frame after them. -/
def filldirRun (f : Frame) : List FilldirCall → List Int × Frame
  | [] => ([], f)
  | c :: cs =>
    let r := searchFilldir f c
    ((r.1 :: (filldirRun r.2 cs).1), (filldirRun r.2 cs).2)

/-- The loop `for (entry = entries; *entry; entry = entry+strlen(entry)+1)` over the bytes from
`entries` on: the type byte, then after `entry += 1` the name up to its NUL; at most `fuel`
records. -/
def entryLoop : Nat → List Char → List Dirent
  | 0, _ => []
  | _ + 1, [] => []
  | fuel + 1, t :: rest =>
    if t = '\x00' then []
    else ⟨cString rest, t == 'd'⟩ :: entryLoop fuel (rest.drop ((cString rest).length + 1))

/-- The entries visited after a listing (lines 1357-1361): none unless `next > entries`.  Every
record takes at least one byte, so `bytes.length + 1` rounds are enough (`entryLoop_of_lt`). -/
def listedEntries (f : Frame) : List Dirent :=
  if 0 < f.next then entryLoop (f.bytes.length + 1) f.bytes else []

/-! ### The listing the calls promise -/

/-- The entry a call hands over: the bytes `name[0..namelen)`, a directory when `d_type` is
`DT_DIR`. -/
def FilldirCall.dirent (c : FilldirCall) : Dirent := ⟨c.name.take c.namelen, c.dType == dtDir⟩

/-- The name is NUL-terminated at `namelen`: its first `namelen` bytes are not NUL and the byte after
them is. -/
def FilldirCall.Terminated (c : FilldirCall) : Prop :=
  c.namelen ≤ c.name.length ∧ '\x00' ∉ c.name.take c.namelen ∧ c.name.getD c.namelen '\x00' = '\x00'

/-- The entries of the calls that returned `0`, in call order. -/
def acceptedEntries : List FilldirCall → List Int → List Dirent
  | c :: cs, r :: rs => (if r = 0 then [c.dirent] else []) ++ acceptedEntries cs rs
  | _, _ => []

/-- The record `search_filldir` is meant to leave for an entry: its type byte, its name and a NUL. -/
def entryRecord (e : Dirent) : List Char := (if e.isDir then 'd' else 'o') :: e.name ++ ['\x00']

/-- The buffer holds the records of `es` from `entries` on, `next` is past them, and once a record
is written a NUL follows the last one. -/
structure Listed (f : Frame) (es : List Dirent) : Prop where
  next_eq : f.next = (es.flatMap entryRecord).length
  bytes_eq : es ≠ [] → ∃ rest, f.bytes = es.flatMap entryRecord ++ '\x00' :: rest
  names : ∀ e ∈ es, '\x00' ∉ e.name

private theorem listed_reset (bytes : List Char) : Listed ⟨bytes, 0⟩ [] :=
  ⟨rfl, fun h => absurd rfl h, fun _ h => absurd h (List.not_mem_nil _)⟩

/-! ### Stores -/

/-- A store at the end of a known prefix. -/
theorem writeAt_append (pre suf data : List Char) :
    writeAt (pre ++ suf) pre.length data = pre ++ data ++ suf.drop data.length := by
  simp [writeAt, List.drop_append_eq_append_drop]

theorem searchFilldir_of_lt {f : Frame} {c : FilldirCall}
    (h : (searchBuf : Int) - f.next < c.namelen + 3) : searchFilldir f c = (einval.neg, f) :=
  if_pos h

theorem searchFilldir_of_ge {f : Frame} {c : FilldirCall}
    (h : ¬(searchBuf : Int) - f.next < c.namelen + 3) :
    searchFilldir f c = (0, ⟨(filldirStores f.next c).foldl (fun m s => writeAt m s.1 s.2) f.bytes,
      f.next + 1 + (c.namelen + 1)⟩) :=
  if_neg h

theorem searchFilldir_of_eq_zero {f : Frame} {c : FilldirCall} (h0 : (searchFilldir f c).1 = 0) :
    searchFilldir f c = (0, ⟨(filldirStores f.next c).foldl (fun m s => writeAt m s.1 s.2) f.bytes,
      f.next + 1 + (c.namelen + 1)⟩) :=
  searchFilldir_of_ge fun h =>
    Int.ne_of_lt (Errno.neg_lt_zero _) (by rw [searchFilldir_of_lt h] at h0; exact h0)

/-- A call either returns `-EINVAL` and leaves the frame as it was, or returns `0`. -/
private theorem searchFilldir_cases (f : Frame) (c : FilldirCall) :
    searchFilldir f c = (einval.neg, f) ∨ (searchFilldir f c).1 = 0 := by
  unfold searchFilldir
  split
  · exact .inl rfl
  · exact .inr rfl

/-- A call returns `0` exactly when `namelen + 3` bytes are left. -/
theorem searchFilldir_eq_zero_iff (f : Frame) (c : FilldirCall) :
    (searchFilldir f c).1 = 0 ↔ f.next + c.namelen + 3 ≤ searchBuf := by
  by_cases h : (searchBuf : Int) - f.next < c.namelen + 3
  · rw [searchFilldir_of_lt h]
    exact iff_of_false (Int.ne_of_lt (Errno.neg_lt_zero _)) (by omega)
  · rw [searchFilldir_of_ge h]
    exact iff_of_true rfl (by omega)

/-- What an accepted call leaves on a buffer whose first `next` bytes are `pre`: the type byte, the
name up to its first NUL and that NUL, then the store `*ds->next = '\0'` at `next + namelen + 2`. -/
theorem filldirStores_bytes (pre X : List Char) (c : FilldirCall) :
    (filldirStores pre.length c).foldl (fun m s => writeAt m s.1 s.2) (pre ++ X) =
      writeAt (pre ++ c.typeByte :: cString c.name ++ '\x00' :: X.drop ((cString c.name).length + 2))
        (pre.length + 1 + (c.namelen + 1)) ['\x00'] := by
  simp only [filldirStores, List.foldl_cons, List.foldl_nil]
  rw [writeAt_append, show pre ++ [c.typeByte, '\x00'] ++ X.drop [c.typeByte, '\x00'].length =
      (pre ++ [c.typeByte]) ++ '\x00' :: X.drop 2 by simp,
    show pre.length + 1 = (pre ++ [c.typeByte]).length by simp, writeAt_append]
  simp
  rw [Nat.add_comm 2]

/-! ### Names terminated at `namelen` -/

theorem FilldirCall.Terminated.cString_eq {c : FilldirCall} (h : c.Terminated) :
    cString c.name = c.name.take c.namelen := by
  obtain ⟨-, hn, hnul⟩ := h
  conv_lhs => rw [← List.take_append_drop c.namelen c.name]
  rw [cString, List.takeWhile_append_of_pos fun _ ha => bne_iff_ne.mpr (ne_of_mem_of_not_mem ha hn)]
  cases hd : c.name.drop c.namelen with
  | nil => simp
  | cons d rest =>
    have hget : c.name[c.namelen]? = some d := by
      rw [← Nat.add_zero c.namelen, ← List.getElem?_drop, hd]; simp
    rw [List.getD_eq_getElem?_getD, hget, Option.getD_some] at hnul
    simp [hnul]

/-- The record of a call's entry is the type byte, `name[0..namelen)` and a NUL. -/
theorem entryRecord_dirent (c : FilldirCall) :
    entryRecord c.dirent = c.typeByte :: c.name.take c.namelen ++ ['\x00'] := by
  simp [entryRecord, FilldirCall.dirent, FilldirCall.typeByte]

/-- Every store of an accepted call whose name is terminated at `namelen` lies inside the buffer. -/
private theorem filldirStores_le {f : Frame} {c : FilldirCall} (hc : c.Terminated)
    (h0 : (searchFilldir f c).1 = 0) : ∀ s ∈ filldirStores f.next c, s.1 + s.2.length ≤ searchBuf := by
  have hb := (searchFilldir_eq_zero_iff f c).mp h0
  have hlen : (cString c.name).length = c.namelen := by
    rw [hc.cString_eq, List.length_take_of_le hc.1]
  simp only [filldirStores, List.mem_cons, List.mem_singleton, List.not_mem_nil, or_false]
  rintro s (rfl | rfl | rfl) <;> simp [hlen] <;> omega

/-- An accepted call whose name is terminated at `namelen` appends its entry's record. -/
theorem searchFilldir_listed {f : Frame} {es : List Dirent} {c : FilldirCall} (hl : Listed f es)
    (hc : c.Terminated) (h0 : (searchFilldir f c).1 = 0) :
    Listed (searchFilldir f c).2 (es ++ [c.dirent]) := by
  obtain ⟨X, hX⟩ : ∃ X, f.bytes = es.flatMap entryRecord ++ X := by
    by_cases hes : es = []
    · exact ⟨f.bytes, by simp [hes]⟩
    · obtain ⟨rest, h⟩ := hl.bytes_eq hes
      exact ⟨_, h⟩
  have hlen : (c.name.take c.namelen).length = c.namelen := List.length_take_of_le hc.1
  rw [searchFilldir_of_eq_zero h0]
  refine ⟨?_, fun _ => ?_, ?_⟩
  · simp only [hl.next_eq, List.flatMap_append, List.flatMap_singleton, entryRecord_dirent,
      List.length_append, List.length_cons, List.length_singleton, List.length_nil, hlen]
    omega
  · dsimp only
    rw [hX, hl.next_eq, filldirStores_bytes, hc.cString_eq]
    generalize X.drop _ = Y
    rw [show es.flatMap entryRecord ++ c.typeByte :: c.name.take c.namelen ++ '\x00' :: Y =
        (es.flatMap entryRecord ++ c.typeByte :: c.name.take c.namelen ++ ['\x00']) ++ Y by simp,
      show (es.flatMap entryRecord).length + 1 + (c.namelen + 1) =
        (es.flatMap entryRecord ++ c.typeByte :: c.name.take c.namelen ++ ['\x00']).length by
        simp [hlen]; omega,
      writeAt_append]
    exact ⟨Y.drop 1, by simp [entryRecord_dirent]⟩
  · intro e he
    rcases List.mem_append.mp he with he | he
    · exact hl.names e he
    · rw [List.mem_singleton.mp he]
      exact hc.2.1

/-- Over any run of calls whose names are terminated at `namelen`, the buffer holds the records of
the accepted calls' entries, in call order. -/
theorem filldirRun_listed : ∀ (cs : List FilldirCall) {f : Frame} {es : List Dirent}, Listed f es →
    (∀ c ∈ cs, c.Terminated) → Listed (filldirRun f cs).2 (es ++ acceptedEntries cs (filldirRun f cs).1)
  | [], f, es, hl, _ => by simpa [filldirRun, acceptedEntries] using hl
  | c :: cs, f, es, hl, hc => by
    have hcs : ∀ c ∈ cs, c.Terminated := fun c' h => hc c' (.tail _ h)
    simp only [filldirRun, acceptedEntries]
    rcases searchFilldir_cases f c with he | h0
    · rw [he, if_neg (Int.ne_of_lt (Errno.neg_lt_zero _)), List.nil_append]
      exact filldirRun_listed cs hl hcs
    · rw [if_pos h0, ← List.append_assoc]
      exact filldirRun_listed cs (searchFilldir_listed hl (hc c (.head _)) h0) hcs

/-! ### The entry loop -/

/-- One more round changes nothing once the rounds outnumber the bytes. -/
theorem entryLoop_succ : ∀ (fuel : Nat) (bytes : List Char), bytes.length < fuel →
    entryLoop (fuel + 1) bytes = entryLoop fuel bytes
  | _ + 1, [], _ => rfl
  | fuel + 1, t :: rest, h => by
    simp only [entryLoop]
    split
    · rfl
    · rw [entryLoop_succ fuel _ (by simp at h ⊢; omega)]

private theorem entryLoop_of_lt {fuel m : Nat} {bytes : List Char} (h : bytes.length < fuel) (hm : fuel ≤ m) :
    entryLoop m bytes = entryLoop fuel bytes := by
  induction m, hm using Nat.le_induction with
  | base => rfl
  | succ m hm ih => rw [entryLoop_succ m bytes (by omega), ih]

/-- The entry loop reads back the records of entries whose names hold no NUL, up to the NUL after
them. -/
theorem entryLoop_records (rest : List Char) : ∀ (es : List Dirent) (fuel : Nat),
    (∀ e ∈ es, '\x00' ∉ e.name) → (es.flatMap entryRecord).length < fuel →
    entryLoop fuel (es.flatMap entryRecord ++ '\x00' :: rest) = es
  | [], _ + 1, _, _ => by simp [entryLoop]
  | e :: es, fuel + 1, h, hlen => by
    have ht : (if e.isDir then 'd' else 'o') ≠ '\x00' := by split <;> decide
    have hn := h e (.head _)
    have hb : (e :: es).flatMap entryRecord ++ '\x00' :: rest = (if e.isDir then 'd' else 'o') ::
        ((e.name ++ ['\x00']) ++ (es.flatMap entryRecord ++ '\x00' :: rest)) := by
      simp [entryRecord]
    have hlen' : (es.flatMap entryRecord).length < fuel := by
      rw [List.flatMap_cons, List.length_append, entryRecord, List.length_append, List.length_cons]
        at hlen
      omega
    have hd (T : List Char) : (e.name ++ '\x00' :: T).drop (e.name.length + 1) = T := by
      simp [List.drop_append_eq_append_drop]
    rw [hb, entryLoop, if_neg ht, List.append_assoc, List.singleton_append, cString_append_nul _ hn,
      hd, entryLoop_records rest es fuel (fun e' he => h e' (.tail _ he)) hlen']
    cases e with
    | mk name isDir => cases isDir <;> rfl

/-- The entry loop visits the entries whose records the buffer holds. -/
theorem listedEntries_of_listed {f : Frame} {es : List Dirent} (hl : Listed f es) :
    listedEntries f = es := by
  by_cases hes : es = []
  · subst hes
    simp [listedEntries, hl.next_eq]
  · obtain ⟨rest, h⟩ := hl.bytes_eq hes
    obtain ⟨e, es', rfl⟩ := List.exists_cons_of_ne_nil hes
    have hpos : 0 < f.next := by
      rw [hl.next_eq, List.flatMap_cons, List.length_append, entryRecord, List.length_append,
        List.length_cons]
      omega
    rw [listedEntries, if_pos hpos, h]
    exact entryLoop_records rest _ _ hl.names (by simp; omega)

/-- The round trip: after the calls of one `vfs_readdir` on a frame reset to `next = entries`,
whatever bytes it held, the entry loop visits the entries of the calls that returned `0`, in call
order, when every name is NUL-terminated at `namelen`. -/
private theorem listedEntries_filldirRun (bytes : List Char) (cs : List FilldirCall)
    (hc : ∀ c ∈ cs, c.Terminated) :
    listedEntries (filldirRun ⟨bytes, 0⟩ cs).2 = acceptedEntries cs (filldirRun ⟨bytes, 0⟩ cs).1 := by
  simpa using listedEntries_of_listed (filldirRun_listed cs (listed_reset bytes) hc)

/-! ### Names not terminated at `namelen` -/

/-- A call on a buffer holding `pre` before `next`, whose name holds `n` before a byte `b` that is
not NUL: the byte after the copied `n`, where the record's NUL belongs, is `b`. -/
private theorem searchFilldir_record (pre X : List Char) (c : FilldirCall) (n more : List Char) (b : Char)
    (hname : c.name = n ++ b :: more) (hlen : n.length = c.namelen) (hn : '\x00' ∉ n)
    (hb : b ≠ '\x00') (h0 : (searchFilldir ⟨pre ++ X, pre.length⟩ c).1 = 0) :
    ((searchFilldir ⟨pre ++ X, pre.length⟩ c).2.bytes.drop pre.length).take (c.namelen + 3) =
      c.typeByte :: n ++ [b, '\x00'] := by
  have hs : cString c.name = n ++ b :: cString more := by
    rw [hname, cString, List.takeWhile_append_of_pos fun _ ha => bne_iff_ne.mpr
      (ne_of_mem_of_not_mem ha hn)]
    simp [cString, hb]
  rw [searchFilldir_of_eq_zero h0]
  dsimp only
  rw [filldirStores_bytes, hs]
  generalize X.drop _ = Y
  rw [show pre ++ c.typeByte :: (n ++ b :: cString more) ++ '\x00' :: Y =
      (pre ++ c.typeByte :: n ++ [b]) ++ (cString more ++ '\x00' :: Y) by simp,
    show pre.length + 1 + (c.namelen + 1) = (pre ++ c.typeByte :: n ++ [b]).length by simp [hlen]; omega,
    writeAt_append]
  simp [← hlen, List.take_append_eq_append_take]

/-- Two names not terminated at `namelen`: `a` (`namelen` 1) followed in memory by `b`, then `c`.
Both calls return `0`, but the entry loop visits one entry, `aboc`.  And with four bytes left in the
buffer, a call with `namelen` 1 passes the check while `strcpy` copies `abcdef` and its NUL from
`SEARCH_BUF - 3` on, past the end of the buffer. -/
theorem filldir_unterminated_name :
    (filldirRun ⟨[], 0⟩ [⟨"ab".toList, 1, 8⟩, ⟨"c".toList, 1, 8⟩]).1 = [0, 0] ∧
    listedEntries (filldirRun ⟨[], 0⟩ [⟨"ab".toList, 1, 8⟩, ⟨"c".toList, 1, 8⟩]).2 =
      [⟨"aboc".toList, false⟩] ∧
    acceptedEntries [⟨"ab".toList, 1, 8⟩, ⟨"c".toList, 1, 8⟩] [0, 0] =
      [⟨"a".toList, false⟩, ⟨"c".toList, false⟩] ∧
    (∀ bytes, (searchFilldir ⟨bytes, searchBuf - 4⟩ ⟨"abcdef".toList, 1, 8⟩).1 = 0) ∧
    (searchBuf - 3, "abcdef".toList ++ ['\x00']) ∈
      filldirStores (searchBuf - 4) ⟨"abcdef".toList, 1, 8⟩ ∧
    searchBuf < searchBuf - 3 + ("abcdef".toList ++ ['\x00']).length :=
  ⟨by decide, by decide, by decide, fun _ => (searchFilldir_eq_zero_iff _ _).mpr (show searchBuf - 4 + 1 + 3 ≤ searchBuf by decide),
    by decide, by decide⟩

end SearchSyscall
