import SearchSyscall.SyscallLemmas
import SearchSyscall.Decode

/-!
# The output buffer of a search without native hooks

`BufferInv len0` is the ledger of the caller's buffer of `len0` bytes while no native search hook
runs: the records emitted so far lie back to back from `buf`, the cursor sits right after them, the
remaining length is what is left of `len0`, the count is the number of records, every write asked
for lies inside the buffer, and the two bytes the closing write will touch can be written.

* `BufferInv.report`, `BufferInv.copyFailed`: a record placed, or a copy that met an unwritable byte,
  keeps the invariant; every other step leaves the ledger alone, so `keeps_bufferInv` gives the
  invariant over the whole walk.
* `search_output`: every write of a search lies inside `[buf, buf + len)`, and a search that does not
  fail returns the number of records it emitted and leaves exactly their text in the buffer, its last
  `|` turned into the closing NUL.
* `search_decode`: the records are read back from the buffer when no path holds `|`.
* `search_stopatfirst`: under `SEARCH_STOPATFIRST` a successful search returns `0` or `1`.
-/

namespace SearchSyscall

/-! ### The invariant -/

/-- The output ledger of a buffer of `len0` bytes. -/
structure BufferInv (len0 : Nat) (l : Ledger) : Prop where
  results_eq : l.results = l.emitted.length
  next_eq : l.next = (textOf l.emitted).length
  len_eq : l.len + (textOf l.emitted).length = len0
  contents : l.mem.readBytes 0 (textOf l.emitted).length = textOf l.emitted
  writes_le : ∀ w ∈ l.writes, 0 ≤ w.1 ∧ w.1 + w.2 ≤ len0
  /-- The closing write `copy_to_user(ds->next-1, "\0\0", 2)` stays inside the buffer and can
  be done. -/
  closing : l.emitted ≠ [] → 2 ≤ l.len ∧ l.mem.writable (l.next - 1) ∧ l.mem.writable l.next
  meta_ne : ∀ r ∈ l.emitted, r.meta ≠ some []

theorem bufferInv_init (mem : UserMem) (len0 : Nat) :
    BufferInv len0 (DirSearch.init mem len0).ledger :=
  ⟨rfl, rfl, rfl, rfl, by simp [DirSearch.init, DirSearch.ledger], by simp [DirSearch.init, DirSearch.ledger],
    by simp [DirSearch.init, DirSearch.ledger]⟩

private theorem recordText_length_ge (r : SearchRecord) : 4 ≤ (recordText r).length := by
  simp

theorem metaText_ne_nil_of_searchRecord (flags : Nat) (path : List Char) (st : Kstat) :
    (searchRecord flags path st).meta ≠ some [] := by
  simp only [searchRecord]
  split <;> simp [statFields]

/-- Placing a record that fits, with its NUL pair, at writable addresses, and counting it. -/
theorem BufferInv.report {len0 : Nat} {ds : DirSearch} {r : SearchRecord}
    (h : BufferInv len0 ds.ledger) (hfit : (recordText r).length + 2 ≤ ds.len)
    (hw : ∀ i : Nat, i < (recordText r).length + 2 → ds.mem.writable (ds.next + i))
    (hr : r.meta ≠ some []) (hits : List Loc) :
    BufferInv len0 { (ds.wrote r).ledger with results := ds.results + 1, hits := hits } := by
  have h4 := recordText_length_ge r
  have hn : ds.next = (textOf ds.emitted).length := h.next_eq
  have hl : ds.len + (textOf ds.emitted).length = len0 := h.len_eq
  have hc : ds.mem.readBytes 0 (textOf ds.emitted).length = textOf ds.emitted := h.contents
  refine ⟨?_, ?_, ?_, ?_, ?_, ?_, ?_⟩ <;>
    simp only [DirSearch.wrote, DirSearch.ledger, textOf_append, textOf_singleton,
      List.length_append, List.length_singleton]
  · have := h.results_eq; simp only [DirSearch.ledger] at this; omega
  · omega
  · omega
  · rw [UserMem.readBytes_add, UserMem.readBytes_writeBytes_of_le, hc,
      show (0 : Int) + ((textOf ds.emitted).length : Nat) = ds.next by omega,
      UserMem.readBytes_writeBytes_append]
    omega
  · intro w hw'
    rcases List.mem_append.mp hw' with hw' | hw'
    · exact h.writes_le w hw'
    · rw [List.mem_singleton.mp hw']; omega
  · intro _
    refine ⟨by omega, ?_, ?_⟩ <;> rw [UserMem.writable_writeBytes]
    · have := hw ((recordText r).length - 1) (by omega)
      rwa [show ds.next + (((recordText r).length - 1 : Nat) : Int) =
        ds.next + ((recordText r).length : Int) - 1 by omega] at this
    · exact hw _ (by omega)
  · intro r' hr'
    rcases List.mem_append.mp hr' with hr' | hr'
    · exact h.meta_ne r' hr'
    · rwa [List.mem_singleton.mp hr']

/-- A copy of `t` bytes that fit but met an unwritable address. -/
theorem BufferInv.copyFailed {len0 : Nat} {ds : DirSearch} {t : List Char}
    (h : BufferInv len0 ds.ledger) (ht : t.length ≤ ds.len) :
    BufferInv len0 { ds.ledger with mem := (ds.mem.copyToUser ds.next t).1,
                                    writes := ds.writes ++ [(ds.next, t.length)] } := by
  have hn : ds.next = (textOf ds.emitted).length := h.next_eq
  have hl : ds.len + (textOf ds.emitted).length = len0 := h.len_eq
  refine ⟨h.results_eq, h.next_eq, h.len_eq, ?_, ?_, ?_, h.meta_ne⟩
  · simp only [DirSearch.ledger]
    rw [UserMem.readBytes_copyToUser_of_le]
    · exact h.contents
    · omega
  · intro w hw'
    rcases List.mem_append.mp hw' with hw' | hw'
    · exact h.writes_le w hw'
    · rw [List.mem_singleton.mp hw']; simp only [DirSearch.ledger]; omega
  · intro hne
    simpa only [DirSearch.ledger, UserMem.writable_copyToUser] using h.closing hne

/-! ### The walk and the roots loops -/

/-- Every step of the walk keeps the ledger, and the statuses the walk leaves are never positive. -/
theorem keeps_bufferInv (c : Search) (len0 : Nat) :
    Keeps c (fun ds => BufferInv len0 ds.ledger ∧ ds.status ≤ 0)
      (fun ds => BufferInv len0 ds.ledger ∧ ds.status ≤ 0) where
  stop _ h := h
  status _ _ hs h := ⟨h.1, hs⟩
  setPath _ _ h := h
  take _ _ h := h
  base _ _ _ h := h
  opened _ h := h
  close _ _ h := h
  resume _ h _ := ⟨h.1, Int.le_refl 0⟩
  found _ h := ⟨h.1, Int.le_refl 0⟩
  matched loc e ds h := by
    rcases matchedEntry_cases c loc e ds with
      ⟨ds', he, hs, -, -, hl | ⟨t, ht, hl⟩⟩ | ⟨ds', st, hfit, hw, hs, -, -, hl, he⟩
    · rw [he]; exact ⟨hl ▸ h.1, Int.le_of_lt hs⟩
    · rw [he]; exact ⟨hl ▸ h.1.copyFailed ht, Int.le_of_lt hs⟩
    · have hi : BufferInv len0 ds'.ledger :=
        hl ▸ h.1.report hfit hw (metaText_ne_nil_of_searchRecord _ _ _) _
      rw [he]; split <;> exact ⟨hi, hs ▸ Int.le_refl 0⟩

theorem walkRoots_bufferInv {c : Search} (hfs : c.fs.NoHooks) (len0 : Nat)
    (roots : List (List Char)) {ds : DirSearch} (h : BufferInv len0 ds.ledger)
    (hs : ds.status ≤ 0) : RootsLand (fun ds => BufferInv len0 ds.ledger) (walkRoots c roots ds) :=
  RootsLand.mono (fun _ h => h.1) <| walkRoots_lands (keeps_bufferInv c len0) hfs (fun _ h => h.2)
    (fun _ _ h => h) (fun _ h _ => h) roots ds ⟨h, hs⟩

theorem literalRoots_bufferInv (c : Search) (len0 : Nat) :
    ∀ (roots : List (List Char)) (ds : DirSearch), BufferInv len0 ds.ledger →
      RootsLand (fun ds => BufferInv len0 ds.ledger) (literalRoots c roots ds)
  | [], _, h => h
  | r :: rs, ds, h => by
    rcases literalRoots_cons c r rs ds with ⟨ds', he, hl, -⟩ |
      ⟨st, ds', he, hst, hl | ⟨t, ht, hl⟩⟩ | ⟨ds', _, _, _, _, _, hfit, hw, hl, he⟩
    · rw [he]; exact literalRoots_bufferInv c len0 rs ds' (hl ▸ h)
    · rw [he]; exact ⟨hst, show BufferInv len0 ds'.ledger from hl ▸ h⟩
    · rw [he]; exact ⟨hst, show BufferInv len0 ds'.ledger from hl ▸ h.copyFailed ht⟩
    · have hi : BufferInv len0 ds'.ledger :=
        hl ▸ h.report hfit hw (metaText_ne_nil_of_searchRecord _ _ _) _
      rw [he]; split
      · exact hi
      · exact literalRoots_bufferInv c len0 rs ds' hi

/-! ### What the caller finds -/

/-- What the caller can see after a search in a buffer of `len0` bytes that returned `ret`: every
write inside the buffer and, unless the search failed, the count of the records and their text
up to the closing NUL pair. -/
structure Output (len0 : Nat) (ret : Int) (l : Ledger) : Prop where
  writes_le : ∀ w ∈ l.writes, 0 ≤ w.1 ∧ w.1 + w.2 ≤ len0
  ret_eq : 0 ≤ ret → ret = l.emitted.length
  contents : 0 ≤ ret → l.mem.readBytes 0 (l.next - 1).toNat = (textOf l.emitted).dropLast
  meta_ne : ∀ r ∈ l.emitted, r.meta ≠ some []

private theorem output_init (mem : UserMem) (len0 : Nat) {ret : Int} (hret : ret ≤ 0) :
    Output len0 ret (DirSearch.init mem len0).ledger :=
  ⟨by simp [DirSearch.init, DirSearch.ledger], fun h => by simp [DirSearch.init, DirSearch.ledger]; omega,
    fun _ => rfl, by simp [DirSearch.init, DirSearch.ledger]⟩

/-- The closing write: two NUL bytes over the last `|` and the byte after it. -/
theorem BufferInv.closeOutput {len0 : Nat} {ds : DirSearch} (h : BufferInv len0 ds.ledger) :
    Output len0 (closeOutput ds).1 (closeOutput ds).2.ledger ∧
      (closeOutput ds).2.emitted = ds.emitted ∧ (closeOutput ds).2.results = ds.results := by
  have hn : ds.next = (textOf ds.emitted).length := h.next_eq
  have hl : ds.len + (textOf ds.emitted).length = len0 := h.len_eq
  have hc : ds.mem.readBytes 0 (textOf ds.emitted).length = textOf ds.emitted := h.contents
  have hr : ds.results = ds.emitted.length := h.results_eq
  unfold SearchSyscall.closeOutput
  by_cases h0 : ds.next = 0
  · have ht : textOf ds.emitted = [] := List.eq_nil_of_length_eq_zero (by omega)
    simp only [h0, ne_eq, not_true_eq_false, if_false]
    refine ⟨⟨h.writes_le, fun _ => hr, fun _ => ?_, h.meta_ne⟩, trivial, trivial⟩
    simp only [DirSearch.ledger, h0, ht]
    rfl
  have hne : ds.emitted ≠ [] := by
    rintro he
    have : (textOf ds.emitted).length = 0 := by simp [he]
    omega
  obtain ⟨h2, hw1, hw2⟩ : 2 ≤ ds.len ∧ ds.mem.writable (ds.next - 1) ∧ ds.mem.writable ds.next :=
    h.closing hne
  have hcopy : ds.mem.copyToUser (ds.next - 1) ['\x00', '\x00'] =
      (ds.mem.writeBytes (ds.next - 1) ['\x00', '\x00'], 0) := by
    apply UserMem.copyToUser_eq_of_writable
    intro i hi
    rcases i with _ | _ | i
    · simpa using hw1
    · simpa using hw2
    · simp only [List.length_cons, List.length_nil] at hi; omega
  simp only [h0, ne_eq, not_false_eq_true, if_true, DirSearch.userWrite, hcopy, not_true_eq_false,
    if_false]
  refine ⟨⟨fun w hw => ?_, fun _ => hr, fun _ => ?_, h.meta_ne⟩, trivial, trivial⟩
  · rcases List.mem_append.mp hw with hw | hw
    · exact h.writes_le w hw
    · rw [List.mem_singleton.mp hw]; simp only [List.length_cons, List.length_nil]; omega
  · simp only [DirSearch.ledger]
    rw [UserMem.readBytes_writeBytes_of_le, UserMem.readBytes_of_le _ _
      (show (ds.next - 1).toNat ≤ (textOf ds.emitted).length by omega), hc, List.dropLast_eq_take]
    · congr 1
      omega
    · omega

theorem finish_output {len0 : Nat} {o : Except (Int × DirSearch) DirSearch}
    (ho : RootsLand (fun ds => BufferInv len0 ds.ledger) o) :
    Output len0 (finish o).1 (finish o).2.ledger := by
  cases o with
  | ok ds => exact (BufferInv.closeOutput ho).1
  | error r =>
    obtain ⟨st, ds⟩ := r
    exact ⟨ho.2.writes_le, fun h => absurd h (Int.not_le.mpr ho.1),
      fun h => absurd h (Int.not_le.mpr ho.1), ho.2.meta_ne⟩

/-- Without native search hooks, every write of a search lies inside the caller's buffer, and a
search that does not fail returns the number of records it emitted and leaves their text in the
buffer, the last `|` turned into the first byte of the closing NUL pair. -/
theorem search_output (env : Env) (paths pattern : Option (List Char)) (flags : Nat) (len : UInt64)
    (hfs : env.fs.NoHooks) :
    Output len.toNat (search env paths pattern flags len).1 (search env paths pattern flags len).2.ledger := by
  rcases search_cases env paths pattern flags len with ⟨hret, hl⟩ | ⟨ps, pat, ds, -, -, hl, hs, -, hret, hl'⟩
  · rw [hl]; exact output_init _ _ (by rcases hret with h | ⟨-, h⟩ <;> omega)
  · have h := hl ▸ bufferInv_init env.mem len.toNat
    rw [hret, hl']
    split
    · exact finish_output (walkRoots_bufferInv hfs _ _ h (hs ▸ Int.le_refl 0))
    · exact finish_output (literalRoots_bufferInv _ _ _ _ h)

/-- A search without native hooks that does not fail leaves a buffer from which the records it
emitted are read back, in order, when no record's path holds `|`. -/
theorem search_decode (env : Env) (paths pattern : Option (List Char)) (flags : Nat) (len : UInt64)
    (hfs : env.fs.NoHooks) (hok : 0 ≤ (search env paths pattern flags len).1)
    (hbar : ∀ r ∈ (search env paths pattern flags len).2.emitted, '|' ∉ r.path) :
    decodeRecords (finalContents (search env paths pattern flags len).2) =
      (search env paths pattern flags len).2.emitted := by
  have ho := search_output env paths pattern flags len hfs
  have hc : finalContents (search env paths pattern flags len).2 =
      (textOf (search env paths pattern flags len).2.emitted).dropLast := ho.contents hok
  rw [hc]
  exact decodeRecords_encode fun r hr => ⟨hbar r hr, ho.meta_ne r hr⟩

theorem smallFs_noHooks : smallFs.NoHooks := fun _ _ h =>
  smallFs_node_elim (motive := fun _ i => i.search = none) rfl rfl rfl rfl rfl h

theorem search_decode_small :
    smallEnv.fs.NoHooks ∧ 0 ≤ (search smallEnv (some "/t".toList) (some "*".toList) 0 100).1 ∧
      (∀ r ∈ (search smallEnv (some "/t".toList) (some "*".toList) 0 100).2.emitted, '|' ∉ r.path) ∧
      decodeRecords (finalContents (search smallEnv (some "/t".toList) (some "*".toList) 0 100).2) =
        (search smallEnv (some "/t".toList) (some "*".toList) 0 100).2.emitted :=
  ⟨smallFs_noHooks, by decide, by decide,
    search_decode smallEnv _ _ 0 100 smallFs_noHooks (by decide) (by decide)⟩

/-- `/t` holding one file, named `a||0|b`. -/
def barFs : Fs where
  node
    | [] => some (dirNode [⟨['t'], true⟩])
    | [['t']] => some (dirNode [⟨"a||0|b".toList, false⟩])
    | [['t'], ['a', '|', '|', '0', '|', 'b']] => some fileNode
    | _ => none
  cwd := []
  mountPath _ := ['/']

/-- `/t` holding the files `a` and `b`. -/
def pairFs : Fs where
  node
    | [] => some (dirNode [⟨['t'], true⟩])
    | [['t']] => some (dirNode [⟨['a'], false⟩, ⟨['b'], false⟩])
    | [['t'], ['a']] => some fileNode
    | [['t'], ['b']] => some fileNode
    | _ => none
  cwd := []
  mountPath _ := ['/']

/-- A file named `a||0|b` and the two files `a` and `b` leave the same buffer. -/
theorem search_bar_name_collision :
    0 ≤ (search ⟨barFs, bufMem, true, true, true⟩ (some "/t".toList) (some "*".toList) 0 100).1 ∧
    0 ≤ (search ⟨pairFs, bufMem, true, true, true⟩ (some "/t".toList) (some "*".toList) 0 100).1 ∧
    (search ⟨barFs, bufMem, true, true, true⟩ (some "/t".toList) (some "*".toList) 0 100).2.emitted ≠
      (search ⟨pairFs, bufMem, true, true, true⟩ (some "/t".toList) (some "*".toList) 0 100).2.emitted ∧
    finalContents (search ⟨barFs, bufMem, true, true, true⟩ (some "/t".toList) (some "*".toList) 0 100).2 =
      finalContents
        (search ⟨pairFs, bufMem, true, true, true⟩ (some "/t".toList) (some "*".toList) 0 100).2 := by
  decide

/-! ### `SEARCH_STOPATFIRST` -/

/-- Under `SEARCH_STOPATFIRST` the count stays `0` while the walk goes on, and is at most `1` where
it stops. -/
private theorem keeps_stop (c : Search) (hstop : hasFlag c.flags searchStopatfirst) :
    Keeps c (fun ds => ds.results = 0) (fun ds => 0 ≤ ds.results ∧ ds.results ≤ 1) where
  stop _ h := by simp only [h]; decide
  status _ _ _ h := h
  setPath _ _ h := h
  take _ _ h := h
  base _ _ _ h := h
  opened _ h := h
  close _ _ h := h
  resume ds h hs := by
    simp only [hstop, and_true, Int.not_lt] at hs
    show ds.results = 0
    omega
  found _ h := h
  matched loc e ds h := by
    rcases matchedEntry_cases c loc e ds with
      ⟨ds', he, -, -, -, hl⟩ | ⟨ds', st, -, -, -, -, -, hl, he⟩ <;> rw [he]
    · have := (DirSearch.counts_eq_of_failed hl).1
      show 0 ≤ ds'.results ∧ ds'.results ≤ 1
      omega
    · have : ds'.results = ds.results + 1 := congrArg Ledger.results hl
      rw [if_pos hstop]
      show 0 ≤ ds'.results ∧ ds'.results ≤ 1
      omega

theorem literalRoots_stop (c : Search) (hstop : hasFlag c.flags searchStopatfirst) :
    ∀ (roots : List (List Char)) (ds : DirSearch), ds.results = 0 →
      RootsLand (fun ds => ds.results ≤ 1) (literalRoots c roots ds)
  | [], _, h => show _ ≤ 1 by omega
  | r :: rs, ds, h => by
    rcases literalRoots_cons c r rs ds with ⟨ds', he, hl, -⟩ |
      ⟨st, ds', he, hst, hl⟩ | ⟨ds', _, _, _, _, _, -, -, hl, he⟩ <;> rw [he]
    · have : ds'.results = ds.results := congrArg Ledger.results hl
      exact literalRoots_stop c hstop rs ds' (by omega)
    · have := (DirSearch.counts_eq_of_failed hl).1
      exact ⟨hst, show ds'.results ≤ 1 by omega⟩
    · have : ds'.results = ds.results + 1 := congrArg Ledger.results hl
      rw [if_pos hstop]
      show ds'.results ≤ 1
      omega

private theorem walkRoots_stop {c : Search} (hfs : c.fs.NoHooks) (hstop : hasFlag c.flags searchStopatfirst)
    (len0 : Nat) (roots : List (List Char)) {ds : DirSearch} (h : BufferInv len0 ds.ledger)
    (hs : ds.status ≤ 0) (h0 : ds.results = 0) :
    RootsLand (fun ds => BufferInv len0 ds.ledger ∧ ds.results ≤ 1) (walkRoots c roots ds) :=
  RootsLand.mono (fun _ h => ⟨h.1.1, h.2.2⟩) <|
    walkRoots_lands ((keeps_bufferInv c len0).and (keeps_stop c hstop)) hfs (fun _ h => h.1.2)
      (fun _ _ h => h) (fun ds h hn => ⟨h.1, by
        simp only [hstop, and_true, Int.not_lt] at hn
        have := h.2.1
        omega⟩) roots ds ⟨⟨h, hs⟩, h0⟩

/-- A roots loop that kept the count at most `1` and did not fail emitted at most one record. -/
private theorem finish_emitted_le_one {len0 : Nat} {o : Except (Int × DirSearch) DirSearch}
    (ho : RootsLand (fun ds => BufferInv len0 ds.ledger ∧ ds.results ≤ 1) o)
    (hok : 0 ≤ (finish o).1) : (finish o).2.ledger.emitted.length ≤ 1 := by
  obtain ⟨ds, rfl, h, h1⟩ := ho.finish hok
  have he : (finish (.ok ds)).2.emitted = ds.emitted := h.closeOutput.2.1
  have hr : ds.results = ds.emitted.length := h.results_eq
  show (finish (.ok ds)).2.emitted.length ≤ 1
  rw [he]
  omega

/-- Under `SEARCH_STOPATFIRST`, a search without native hooks that does not fail returns `0` or `1`
and writes at most one record, whether the walk found the match, at any depth and with siblings or
later roots left, or the literal shortcut did. -/
theorem search_stopatfirst (env : Env) (paths pattern : Option (List Char)) (flags : Nat)
    (len : UInt64) (hfs : env.fs.NoHooks) (hstop : hasFlag flags searchStopatfirst)
    (hok : 0 ≤ (search env paths pattern flags len).1) :
    ((search env paths pattern flags len).1 = 0 ∨ (search env paths pattern flags len).1 = 1) ∧
      (search env paths pattern flags len).2.emitted.length ≤ 1 := by
  have hret := (search_output env paths pattern flags len hfs).ret_eq hok
  suffices h : (search env paths pattern flags len).2.emitted.length ≤ 1 by
    have : (search env paths pattern flags len).1 =
      (search env paths pattern flags len).2.emitted.length := hret
    omega
  rcases search_cases env paths pattern flags len with
    ⟨-, hl⟩ | ⟨ps, pat, ds, -, -, hl, hs, -, hret', hl'⟩
  · rw [show (search env paths pattern flags len).2.emitted = [] from congrArg Ledger.emitted hl]
    simp
  · have h := hl ▸ bufferInv_init env.mem len.toNat
    have h0 : ds.results = 0 := congrArg Ledger.results hl
    rw [show (search env paths pattern flags len).2.emitted = _ from congrArg Ledger.emitted hl']
    rw [hret'] at hok
    refine @finish_emitted_le_one len.toNat _ ?_ hok
    split
    · exact walkRoots_stop hfs hstop _ _ h (hs ▸ Int.le_refl 0) h0
    · exact (literalRoots_bufferInv _ _ _ _ h).and (literalRoots_stop _ hstop _ _ h0)

theorem search_stopatfirst_small :
    smallEnv.fs.NoHooks ∧ hasFlag searchStopatfirst searchStopatfirst ∧
      0 ≤ (search smallEnv (some "/t".toList) (some "*".toList) searchStopatfirst 100).1 ∧
      ((search smallEnv (some "/t".toList) (some "*".toList) searchStopatfirst 100).1 = 0 ∨
        (search smallEnv (some "/t".toList) (some "*".toList) searchStopatfirst 100).1 = 1) ∧
      (search smallEnv (some "/t".toList) (some "*".toList) searchStopatfirst 100).2.emitted.length ≤ 1 :=
  ⟨smallFs_noHooks, by decide, by decide,
    search_stopatfirst smallEnv _ _ _ 100 smallFs_noHooks (by decide) (by decide)⟩

end SearchSyscall
