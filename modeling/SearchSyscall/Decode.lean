import Mathlib.Data.Nat.Digits
import SearchSyscall.State

/-!
# Reading the result buffer back

The records `copy_search_result` writes are `0|path|meta|` one after the other, with no NUL
between them (each record's NUL pair is overwritten by the next), and the closing write turns the
last `|` into the first NUL of the final pair.  `decodeRecords` reads the bytes before that pair:
it puts the `|` back, splits at `|`, and takes the fields three by three.

`decodeRecords_encode` shows that this recovers every list of records whose paths hold no `|` and
whose metadata, when present, is not empty; the numbers are read back by `parseInt`, the inverse of
the `%d` format (`parseInt_fmtInt`).
-/

namespace SearchSyscall

/-! ### Numbers -/

/-- The value of a decimal digit. -/
def digitVal (c : Char) : Nat := c.toNat - '0'.toNat

/-- A run of decimal digits as a number. -/
def parseNat (ds : List Char) : Nat := ds.foldl (fun acc c => acc * 10 + digitVal c) 0

/-- A decimal number with an optional `-`. -/
def parseInt : List Char → Int
  | '-' :: ds => -(parseNat ds : Int)
  | ds => parseNat ds

private theorem digitVal_digitChar : ∀ k : Fin 10, digitVal (Nat.digitChar k) = k := by decide

private theorem digitChar_ne : ∀ k : Fin 10,
    Nat.digitChar k ≠ '-' ∧ Nat.digitChar k ≠ ',' ∧ Nat.digitChar k ≠ '|' := by decide

theorem toDigitsCore_append (fuel n : Nat) (ds : List Char) :
    Nat.toDigitsCore 10 fuel n ds = Nat.toDigitsCore 10 fuel n [] ++ ds := by
  induction fuel generalizing n ds with
  | zero => rfl
  | succ fuel ih =>
    simp only [Nat.toDigitsCore]
    split
    · rfl
    · rw [ih, ih _ [_]]; simp

/-- Every byte of a decimal numeral is a digit `0` … `9`. -/
theorem mem_toDigitsCore {fuel n : Nat} {c : Char} (h : c ∈ Nat.toDigitsCore 10 fuel n []) :
    ∃ k : Fin 10, c = Nat.digitChar k := by
  induction fuel generalizing n with
  | zero => simp [Nat.toDigitsCore] at h
  | succ fuel ih =>
    simp only [Nat.toDigitsCore] at h
    split at h
    · simp only [List.mem_singleton] at h
      exact ⟨⟨n % 10, Nat.mod_lt _ (by decide)⟩, h⟩
    · rw [toDigitsCore_append] at h
      rcases List.mem_append.mp h with h | h
      · exact ih h
      · simp only [List.mem_singleton] at h
        exact ⟨⟨n % 10, Nat.mod_lt _ (by decide)⟩, h⟩

private theorem parseNat_toDigitsCore {fuel n : Nat} (h : n < fuel) :
    parseNat (Nat.toDigitsCore 10 fuel n []) = n := by
  induction fuel generalizing n with
  | zero => omega
  | succ fuel ih =>
    have hd := digitVal_digitChar ⟨n % 10, Nat.mod_lt _ (by decide)⟩
    simp only [Nat.toDigitsCore]
    split
    · simp [parseNat, hd]; omega
    · rw [toDigitsCore_append, parseNat, List.foldl_append, ← parseNat, ih (by omega)]
      simp [hd]; omega

theorem parseNat_toDigits (n : Nat) : parseNat (Nat.toDigits 10 n) = n :=
  parseNat_toDigitsCore (Nat.lt_succ_self n)

theorem toDigits_ne_nil (n : Nat) : Nat.toDigits 10 n ≠ [] := by
  simp only [Nat.toDigits, Nat.toDigitsCore]
  split
  · simp
  · rw [toDigitsCore_append]; simp

theorem mem_fmtInt {i : Int} {c : Char} (h : c ∈ fmtInt i) : c ≠ ',' ∧ c ≠ '|' := by
  unfold fmtInt at h
  split at h
  · rcases List.mem_cons.mp h with rfl | h
    · decide
    · obtain ⟨k, rfl⟩ := mem_toDigitsCore h; exact (digitChar_ne k).2
  · obtain ⟨k, rfl⟩ := mem_toDigitsCore h; exact (digitChar_ne k).2

private theorem parseInt_cons {c : Char} (hc : c ≠ '-') (ds : List Char) :
    parseInt (c :: ds) = parseNat (c :: ds) := by
  rw [parseInt.eq_def]; split
  · simp_all
  · rfl

/-- `parseInt` reads back what `%d` printed. -/
theorem parseInt_fmtInt (i : Int) : parseInt (fmtInt i) = i := by
  unfold fmtInt
  split
  · simp only [parseInt, parseNat_toDigits]; omega
  · rcases h : Nat.toDigits 10 i.natAbs with _ | ⟨c, ds⟩
    · exact absurd h (toDigits_ne_nil _)
    · have hc : c ≠ '-' := by
        obtain ⟨k, rfl⟩ := mem_toDigitsCore (show c ∈ Nat.toDigits 10 i.natAbs by simp [h])
        exact (digitChar_ne k).1
      have := parseNat_toDigits i.natAbs
      rw [h] at this
      rw [parseInt_cons hc, this]
      omega

private theorem fmtInt_ne_nil (i : Int) : fmtInt i ≠ [] := by
  unfold fmtInt; split
  · simp
  · exact toDigits_ne_nil _

/-! ### Records -/

/-- The metadata field read back: nothing, or the numbers between the `,`. -/
def parseMeta : List Char → Option (List Int)
  | [] => none
  | m => some ((m.splitOn ',').map parseInt)

/-- The fields taken three by three: the marker `0`, the path, the metadata. -/
def groupFields : List (List Char) → List SearchRecord
  | _ :: p :: m :: rest => ⟨p, parseMeta m⟩ :: groupFields rest
  | _ => []

/-- The records in the bytes before the closing NUL pair. -/
def decodeRecords (buf : List Char) : List SearchRecord :=
  if buf = [] then [] else groupFields ((buf ++ ['|']).splitOn '|')

/-- The caller's buffer up to its closing NUL pair, which starts at `next - 1`. -/
def finalContents (ds : DirSearch) : List Char := ds.mem.readBytes 0 (ds.next - 1).toNat

/-- The text of records placed one after the other. -/
def textOf (rs : List SearchRecord) : List Char := (rs.map recordText).flatten

@[simp] theorem textOf_nil : textOf [] = [] := rfl

@[simp] theorem textOf_append (rs rs' : List SearchRecord) :
    textOf (rs ++ rs') = textOf rs ++ textOf rs' := by
  simp [textOf]

@[simp] theorem textOf_cons (r : SearchRecord) (rs : List SearchRecord) :
    textOf (r :: rs) = recordText r ++ textOf rs := rfl

@[simp] theorem textOf_singleton (r : SearchRecord) : textOf [r] = recordText r := by
  simp [textOf]

/-- The three fields of each record. -/
def recordFields (rs : List SearchRecord) : List (List Char) :=
  rs.flatMap fun r => ["0".toList, r.path, metaText r.meta]

@[simp] theorem recordFields_cons (r : SearchRecord) (rs : List SearchRecord) :
    recordFields (r :: rs) = "0".toList :: r.path :: metaText r.meta :: recordFields rs := rfl

/-- A record list can be read back: no `|` in a path, and no empty metadata list. -/
def Decodable (rs : List SearchRecord) : Prop := ∀ r ∈ rs, '|' ∉ r.path ∧ r.meta ≠ some []

private theorem intercalate_cons_cons (sep a b : List Char) (l : List (List Char)) :
    sep.intercalate (a :: b :: l) = a ++ sep ++ sep.intercalate (b :: l) := by
  simp [List.intercalate, List.intersperse_cons₂]

private theorem mem_intercalate {sep : List Char} {c : Char} :
    ∀ {ls : List (List Char)}, c ∈ sep.intercalate ls → c ∈ sep ∨ ∃ l ∈ ls, c ∈ l
  | [], h => by simp [List.intercalate] at h
  | [a], h => .inr ⟨a, by simp, by simpa [List.intercalate] using h⟩
  | a :: b :: ls, h => by
    rw [intercalate_cons_cons] at h
    rcases List.mem_append.mp h with h | h
    · rcases List.mem_append.mp h with h | h
      · exact .inr ⟨a, by simp, h⟩
      · exact .inl h
    · rcases mem_intercalate h with h | ⟨l, hl, h⟩
      · exact .inl h
      · exact .inr ⟨l, List.mem_cons_of_mem _ hl, h⟩

private theorem not_mem_metaText (m : Option (List Int)) : '|' ∉ metaText m := by
  intro h
  cases m with
  | none => simp [metaText] at h
  | some l =>
    rcases mem_intercalate h with h | ⟨x, hx, h⟩
    · simp at h
    · obtain ⟨i, -, rfl⟩ := List.mem_map.mp hx
      exact (mem_fmtInt h).2 rfl

private theorem intercalate_ne_nil {sep a : List Char} (l : List (List Char)) (h : a ≠ []) :
    sep.intercalate (a :: l) ≠ [] := by
  cases l with
  | nil => simpa [List.intercalate] using h
  | cons b l => rw [intercalate_cons_cons]; simp [h]

private theorem join_recordText (rs : List SearchRecord) :
    textOf rs = ['|'].intercalate (recordFields rs ++ [[]]) := by
  induction rs with
  | nil => rfl
  | cons r rs ih =>
    obtain ⟨x, rest, hx⟩ := List.exists_cons_of_ne_nil
      (show recordFields rs ++ [[]] ≠ [] by simp)
    simp only [textOf_cons, ih, recordFields_cons, List.cons_append]
    rw [hx, intercalate_cons_cons, intercalate_cons_cons, intercalate_cons_cons]
    simp [recordText]

private theorem parseMeta_metaText {m : Option (List Int)} (h : m ≠ some []) :
    parseMeta (metaText m) = m := by
  match m, h with
  | none, _ => rfl
  | some (i :: is), _ =>
    have hne : metaText (some (i :: is)) ≠ [] := intercalate_ne_nil _ (by simp [fmtInt_ne_nil])
    obtain ⟨c, cs, hc⟩ := List.exists_cons_of_ne_nil hne
    have e : parseMeta (c :: cs) = some (((c :: cs).splitOn ',').map parseInt) := rfl
    rw [hc, e, ← hc, metaText, List.splitOn_intercalate]
    · simp [Function.comp_def, parseInt_fmtInt]
    · simp only [List.mem_map]; rintro _ ⟨j, -, rfl⟩ hm; exact (mem_fmtInt hm).1 rfl
    · simp

private theorem groupFields_recordFields {rs : List SearchRecord} (h : Decodable rs) :
    groupFields (recordFields rs ++ [[]]) = rs := by
  induction rs with
  | nil => rfl
  | cons r rs ih =>
    have hr := h r (by simp)
    show groupFields ("0".toList :: r.path :: metaText r.meta :: (recordFields rs ++ [[]])) = r :: rs
    rw [groupFields, ih fun r' hr' => h r' (List.mem_cons_of_mem _ hr'), parseMeta_metaText hr.2]

/-- The records of a nonempty list, written out, end with `|`. -/
private theorem join_recordText_eq_concat {rs : List SearchRecord} (h : rs ≠ []) :
    ∃ y, y ≠ [] ∧ textOf rs = y ++ ['|'] := by
  induction rs with
  | nil => exact absurd rfl h
  | cons r rs ih =>
    rcases rs with _ | ⟨r', rs⟩
    · exact ⟨"0|".toList ++ r.path ++ ['|'] ++ metaText r.meta, by simp, by simp [recordText]⟩
    · obtain ⟨y, -, hy⟩ := ih (by simp)
      refine ⟨recordText r ++ y, by simp [recordText], ?_⟩
      rw [textOf_cons, hy, List.append_assoc]

/-- Reading back the records, with their last `|` removed, gives the records. -/
theorem decodeRecords_encode {rs : List SearchRecord} (h : Decodable rs) :
    decodeRecords (textOf rs).dropLast = rs := by
  rcases rs with _ | ⟨r, rs⟩
  · rfl
  · obtain ⟨y, hy, e⟩ := @join_recordText_eq_concat (r :: rs) (by simp)
    rw [e, List.dropLast_concat, decodeRecords, if_neg hy, ← e, join_recordText,
      List.splitOn_intercalate, groupFields_recordFields h]
    · intro l hl
      simp only [List.mem_append, List.mem_singleton, recordFields, List.mem_flatMap,
        List.mem_cons, List.not_mem_nil, or_false] at hl
      rcases hl with ⟨r', hr', rfl | rfl | rfl⟩ | rfl
      · decide
      · exact (h r' (List.mem_cons.mpr hr')).1
      · exact not_mem_metaText _
      · simp
    · simp

end SearchSyscall
