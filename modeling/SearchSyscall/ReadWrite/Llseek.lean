import SearchSyscall.ReadWrite.Files

/-!
# Seeking

`lseek_execute`, `generic_file_llseek_size`, `generic_file_llseek`, `noop_llseek`, `no_llseek`,
`default_llseek` and `vfs_llseek` (lines 43-232).  Each takes a file, an offset and an origin, and
returns the new position or a negative error; a seek that succeeds moves `f_pos` and clears
`f_version` if the position changes (`OpenFile.seekTo`).

* `Seeks f r`: the call left the file as it was, returning an error or the position, or moved it
  to the `loff_t` it returned, which is non-negative unless the file's offsets are unsigned.  Every
  method satisfies it (`callLlseek_seeks`), whatever the origin, and however the sums of
  `SEEK_END` and `SEEK_CUR` wrap.
* `Seeks.pos_range`: on a file with signed offsets at a valid position, a seek fails and leaves
  the file untouched, or returns the new position, in `[0, 2^63)`, to which `f_pos` has moved.
* `callLlseek_tell`: every method but `no_llseek` answers `SEEK_CUR` by 0 with the position, and
  `seekCur_zero_fast_path`: that shortcut agrees with the general path wherever the latter accepts
  the position.
-/

namespace SearchSyscall

variable {W : Type}

/-- Lines 51-54 and 210-213: move `f_pos` to `offset`, clearing `f_version`, if it changes. -/
def OpenFile.seekTo (f : OpenFile W) (offset : Int) : OpenFile W :=
  if offset ≠ f.pos then { f with pos := offset, version := 0 } else f

namespace OpenFile

@[simp] theorem pos_seekTo (f : OpenFile W) (offset : Int) : (f.seekTo offset).pos = offset := by
  unfold seekTo
  split
  · rfl
  · next h => exact (Decidable.not_not.mp h).symm

@[simp] theorem mode_seekTo (f : OpenFile W) (offset : Int) : (f.seekTo offset).mode = f.mode := by
  unfold seekTo
  split <;> rfl

@[simp] theorem host_seekTo (f : OpenFile W) (offset : Int) : (f.seekTo offset).host = f.host := by
  unfold seekTo
  split <;> rfl

theorem seekTo_pos (f : OpenFile W) : f.seekTo f.pos = f := by
  simp [seekTo]

/-- A seek leaves the file as it was or moves it, resetting `f_version`. -/
theorem seekTo_eq (f : OpenFile W) (offset : Int) :
    f.seekTo offset = f ∨ f.seekTo offset = { f with pos := offset, version := 0 } := by
  unfold seekTo
  split
  · exact .inr rfl
  · exact .inl rfl

end OpenFile

/-- `lseek_execute(file, inode, offset, maxsize)` (lines 43-56). -/
def lseekExecute (f : OpenFile W) (offset maxsize : Int) : Int × OpenFile W :=
  if offset < 0 ∧ unsignedOffsets f = false then (einval.neg, f)
  else if offset > maxsize then (einval.neg, f)
  else (offset, f.seekTo offset)

/-- `generic_file_llseek_size(file, offset, origin, maxsize)` (lines 73-122), `size` being
`i_size_read(inode)`. -/
def genericFileLlseekSize (f : OpenFile W) (size offset : Int) (origin : Nat) (maxsize : Int) :
    Int × OpenFile W :=
  if origin = seekEnd then lseekExecute f (toLoff (offset + size)) maxsize
  else if origin = seekCur then
    if offset = 0 then (f.pos, f)
    else lseekExecute f (toLoff (f.pos + offset)) maxsize
  else if origin = seekData then
    if offset ≥ size then (enxio.neg, f) else lseekExecute f offset maxsize
  else if origin = seekHole then
    if offset ≥ size then (enxio.neg, f) else lseekExecute f size maxsize
  else lseekExecute f offset maxsize

/-- `generic_file_llseek(file, offset, origin)` (lines 135-141): the limit is the filesystem's
`s_maxbytes`. -/
def genericFileLlseek (f : OpenFile W) (size maxbytes offset : Int) (origin : Nat) :
    Int × OpenFile W :=
  genericFileLlseekSize f size offset origin maxbytes

/-- `noop_llseek` (lines 155-158). -/
def noopLlseek (f : OpenFile W) : Int × OpenFile W := (f.pos, f)

/-- `no_llseek` (lines 161-164). -/
def noLlseek (f : OpenFile W) : Int × OpenFile W := (espipe.neg, f)

/-- The `switch` of `default_llseek` (lines 173-207): the offset it computes, or the value it
jumps to `out` with. -/
def defaultLlseekOffset (f : OpenFile W) (size offset : Int) (origin : Nat) : Except Int Int :=
  if origin = seekEnd then .ok (toLoff (offset + size))
  else if origin = seekCur then
    if offset = 0 then .error f.pos else .ok (toLoff (offset + f.pos))
  else if origin = seekData then
    if offset ≥ size then .error enxio.neg else .ok offset
  else if origin = seekHole then
    if offset ≥ size then .error enxio.neg else .ok size
  else .ok offset

/-- Lines 208-215 of `default_llseek`: a non-negative offset, or any offset of a file whose offsets
are unsigned, becomes the position. -/
def defaultLlseekSet (f : OpenFile W) (offset : Int) : Int × OpenFile W :=
  if offset ≥ 0 ∨ unsignedOffsets f = true then (offset, f.seekTo offset) else (einval.neg, f)

/-- `default_llseek(file, offset, origin)` (lines 167-219), `size` being `inode->i_size`. -/
def defaultLlseek (f : OpenFile W) (size offset : Int) (origin : Nat) : Int × OpenFile W :=
  match defaultLlseekOffset f size offset origin with
  | .error retval => (retval, f)
  | .ok offset => defaultLlseekSet f offset

/-- Call an `llseek` method on the world `w`: `generic_file_llseek` and `generic_file_llseek_size`
read the size, and the first also `s_maxbytes`, of `f_mapping->host` (lines 77, 137);
`default_llseek` reads the size of `f_path.dentry->d_inode` (line 169). -/
def callLlseek (K : Kernel W) (w : W) : Llseek → OpenFile W → Int → Nat → Int × OpenFile W
  | .genericFileLlseek, f, offset, origin =>
    genericFileLlseek f (K.isize w f.host) (K.maxbytes f.host) offset origin
  | .genericFileLlseekSize m, f, offset, origin =>
    genericFileLlseekSize f (K.isize w f.host) offset origin m
  | .noopLlseek, f, _, _ => noopLlseek f
  | .noLlseek, f, _, _ => noLlseek f
  | .defaultLlseek, f, offset, origin => defaultLlseek f (K.isize w f.ino) offset origin

/-- Lines 226-230 of `vfs_llseek`: the method it calls, `f_op->llseek` if the file is seekable and
has one, `no_llseek` otherwise. -/
def llseekMethod (f : OpenFile W) : Llseek :=
  match hasFlag f.mode fmodeLseek, f.ops.bind FileOps.llseek with
  | true, some l => l
  | _, _ => .noLlseek

/-- `vfs_llseek(file, offset, origin)` (lines 222-232). -/
def vfsLlseek (K : Kernel W) (w : W) (f : OpenFile W) (offset : Int) (origin : Nat) :
    Int × OpenFile W :=
  callLlseek K w (llseekMethod f) f offset origin

/-! ### What a seek does to the file -/

/-- The call left the file as it was, returning an error or the position, or moved it to the
`loff_t` it returned, non-negative unless the file's offsets are unsigned. -/
def Seeks (f : OpenFile W) (r : Int × OpenFile W) : Prop :=
  r.2 = f ∧ (r.1 < 0 ∨ r.1 = f.pos) ∨
    r.2 = f.seekTo r.1 ∧ InLoff r.1 ∧ (0 ≤ r.1 ∨ unsignedOffsets f = true)

theorem Seeks.fail (f : OpenFile W) (e : Errno) : Seeks f (e.neg, f) :=
  .inl ⟨rfl, .inl (Errno.neg_lt_zero e)⟩

theorem Seeks.stay (f : OpenFile W) : Seeks f (f.pos, f) := .inl ⟨rfl, .inr rfl⟩

private theorem lseekExecute_seeks (f : OpenFile W) {offset : Int} (h : InLoff offset) (maxsize : Int) :
    Seeks f (lseekExecute f offset maxsize) := by
  unfold lseekExecute
  split_ifs with hneg
  · exact .fail f einval
  · exact .fail f einval
  · refine .inr ⟨rfl, h, ?_⟩
    cases hu : unsignedOffsets f
    · exact .inl (Int.not_lt.mp fun hlt => hneg ⟨hlt, hu⟩)
    · exact .inr rfl

/-- `generic_file_llseek_size` is the `switch` of `default_llseek`, its computed offset handed to
`lseek_execute`. -/
theorem genericFileLlseekSize_eq_offset (f : OpenFile W) (size offset : Int) (origin : Nat)
    (maxsize : Int) :
    genericFileLlseekSize f size offset origin maxsize =
      match defaultLlseekOffset f size offset origin with
      | .error r => (r, f)
      | .ok t => lseekExecute f t maxsize := by
  unfold genericFileLlseekSize defaultLlseekOffset
  by_cases he : origin = seekEnd
  · rw [if_pos he, if_pos he]
  rw [if_neg he, if_neg he]
  by_cases hc : origin = seekCur
  · rw [if_pos hc, if_pos hc]
    by_cases h0 : offset = 0
    · rw [if_pos h0, if_pos h0]
    · rw [if_neg h0, if_neg h0, Int.add_comm]
  rw [if_neg hc, if_neg hc]
  by_cases hd : origin = seekData
  · rw [if_pos hd, if_pos hd]
    split_ifs <;> rfl
  rw [if_neg hd, if_neg hd]
  by_cases hh : origin = seekHole
  · rw [if_pos hh, if_pos hh]
    split_ifs <;> rfl
  rw [if_neg hh, if_neg hh]

section Methods

variable (f : OpenFile W) {size offset : Int} (hsize : InLoff size) (hoff : InLoff offset)
include hsize hoff

/-- The `switch` of `default_llseek` computes a `loff_t`, or returns early an error or the
position. -/
theorem defaultLlseekOffset_cases (origin : Nat) :
    (∃ t, defaultLlseekOffset f size offset origin = .ok t ∧ InLoff t) ∨
      ∃ r, defaultLlseekOffset f size offset origin = .error r ∧ (r < 0 ∨ r = f.pos) := by
  unfold defaultLlseekOffset
  by_cases he : origin = seekEnd
  · rw [if_pos he]
    exact .inl ⟨_, rfl, inLoff_toLoff _⟩
  rw [if_neg he]
  by_cases hc : origin = seekCur
  · rw [if_pos hc]
    by_cases h0 : offset = 0
    · rw [if_pos h0]
      exact .inr ⟨_, rfl, .inr rfl⟩
    · rw [if_neg h0]
      exact .inl ⟨_, rfl, inLoff_toLoff _⟩
  rw [if_neg hc]
  -- `SEEK_DATA` and `SEEK_HOLE` refuse an offset at or past the size
  have hpast : ∀ t, InLoff t → (∃ t', (if offset ≥ size then .error enxio.neg else .ok t : Except Int Int) =
      .ok t' ∧ InLoff t') ∨ ∃ r, (if offset ≥ size then .error enxio.neg else .ok t : Except Int Int) =
      .error r ∧ (r < 0 ∨ r = f.pos) := fun t ht => by
    by_cases hs : offset ≥ size
    · rw [if_pos hs]
      exact .inr ⟨_, rfl, .inl (Errno.neg_lt_zero enxio)⟩
    · rw [if_neg hs]
      exact .inl ⟨_, rfl, ht⟩
  by_cases hd : origin = seekData
  · rw [if_pos hd]
    exact hpast offset hoff
  rw [if_neg hd]
  by_cases hh : origin = seekHole
  · rw [if_pos hh]
    exact hpast size hsize
  rw [if_neg hh]
  exact .inl ⟨_, rfl, hoff⟩

theorem genericFileLlseekSize_seeks (origin : Nat) (maxsize : Int) :
    Seeks f (genericFileLlseekSize f size offset origin maxsize) := by
  rw [genericFileLlseekSize_eq_offset]
  rcases defaultLlseekOffset_cases f hsize hoff origin with ⟨t, h, ht⟩ | ⟨r, h, hr⟩ <;> rw [h]
  · exact lseekExecute_seeks f ht maxsize
  · exact .inl ⟨rfl, hr⟩

private theorem defaultLlseek_seeks (origin : Nat) : Seeks f (defaultLlseek f size offset origin) := by
  unfold defaultLlseek
  rcases defaultLlseekOffset_cases f hsize hoff origin with ⟨t, h, ht⟩ | ⟨r, h, hr⟩ <;> rw [h]
  · show Seeks f (defaultLlseekSet f t)
    unfold defaultLlseekSet
    split_ifs with h'
    · exact .inr ⟨rfl, ht, h'⟩
    · exact .fail f einval
  · exact .inl ⟨rfl, hr⟩

end Methods

theorem callLlseek_seeks (K : Kernel W) (w : W) (l : Llseek) (f : OpenFile W) {offset : Int}
    (hoff : InLoff offset) (origin : Nat) : Seeks f (callLlseek K w l f offset origin) := by
  cases l with
  | genericFileLlseek =>
    exact genericFileLlseekSize_seeks f (K.isize_inLoff w f.host) hoff origin (K.maxbytes f.host)
  | genericFileLlseekSize m => exact genericFileLlseekSize_seeks f (K.isize_inLoff w f.host) hoff origin m
  | noopLlseek => exact .stay f
  | noLlseek => exact .fail f espipe
  | defaultLlseek => exact defaultLlseek_seeks f (K.isize_inLoff w f.ino) hoff origin

theorem vfsLlseek_seeks (K : Kernel W) (w : W) (f : OpenFile W) {offset : Int} (hoff : InLoff offset)
    (origin : Nat) : Seeks f (vfsLlseek K w f offset origin) :=
  callLlseek_seeks K w _ f hoff origin

@[simp] theorem llseekMethod_seekTo (f : OpenFile W) (offset : Int) :
    llseekMethod (f.seekTo offset) = llseekMethod f := by
  rcases OpenFile.seekTo_eq f offset with h | h <;> rw [h]
  rfl

/-- Asked for the position (`SEEK_CUR` by 0), every method but `no_llseek` returns it and leaves
the file as it was. -/
theorem callLlseek_tell (K : Kernel W) (w : W) {l : Llseek} (hl : l ≠ .noLlseek) (f : OpenFile W) :
    callLlseek K w l f 0 seekCur = (f.pos, f) := by
  cases l <;> first | exact absurd rfl hl | rfl

/-- The `SEEK_CUR` fast path of `generic_file_llseek_size` and `default_llseek`, which return the
position when asked to move by 0, agrees with their general path on every position that path
accepts: a `loff_t`, non-negative unless the offsets are unsigned, and within `maxsize`. -/
theorem seekCur_zero_fast_path (f : OpenFile W) (size : Int) {maxsize : Int} (hpos : InLoff f.pos)
    (hsign : 0 ≤ f.pos ∨ unsignedOffsets f = true) (hmax : f.pos ≤ maxsize) :
    genericFileLlseekSize f size 0 seekCur maxsize = lseekExecute f (toLoff (f.pos + 0)) maxsize ∧
      defaultLlseek f size 0 seekCur = defaultLlseekSet f (toLoff (0 + f.pos)) := by
  rw [Int.add_zero, Int.zero_add, toLoff_of_inLoff hpos]
  have hneg : ¬(f.pos < 0 ∧ unsignedOffsets f = false) := fun h => by
    rcases hsign with h' | h'
    · omega
    · rw [h'] at h; exact Bool.noConfusion h.2
  constructor
  · rw [lseekExecute, if_neg hneg, if_neg (Int.not_lt.mpr hmax), OpenFile.seekTo_pos]
    rfl
  · rw [defaultLlseekSet, if_pos hsign, OpenFile.seekTo_pos]
    rfl

theorem seekCur_zero_fast_path_quiet :
    InLoff OpenFile.quiet.pos ∧ (0 ≤ OpenFile.quiet.pos ∨ unsignedOffsets OpenFile.quiet = true) ∧
      OpenFile.quiet.pos ≤ 0 ∧
      (genericFileLlseekSize OpenFile.quiet 0 0 seekCur 0 =
          lseekExecute OpenFile.quiet (toLoff (OpenFile.quiet.pos + 0)) 0 ∧
        defaultLlseek OpenFile.quiet 0 0 seekCur = defaultLlseekSet OpenFile.quiet (toLoff (0 + OpenFile.quiet.pos))) :=
  have h1 : InLoff OpenFile.quiet.pos := by unfold InLoff; simp [OpenFile.quiet]
  have h2 : 0 ≤ OpenFile.quiet.pos ∨ unsignedOffsets OpenFile.quiet = true := .inl (Int.le_refl 0)
  have h3 : OpenFile.quiet.pos ≤ 0 := Int.le_refl 0
  ⟨h1, h2, h3, seekCur_zero_fast_path OpenFile.quiet 0 h1 h2 h3⟩

private theorem lseekExecute_eq_defaultLlseekSet (f : OpenFile W) {t maxsize : Int} (ht : t ≤ maxsize) :
    lseekExecute f t maxsize = defaultLlseekSet f t := by
  unfold lseekExecute defaultLlseekSet
  rw [if_neg (Int.not_lt.mpr ht)]
  by_cases h : t < 0 ∧ unsignedOffsets f = false
  · have hn : ¬(t ≥ 0 ∨ unsignedOffsets f = true) := fun h' =>
      h'.elim (fun h0 => absurd h.1 (Int.not_lt.mpr h0)) (fun hu => Bool.noConfusion (h.2.symm.trans hu))
    rw [if_pos h, if_neg hn]
  · have hp : t ≥ 0 ∨ unsignedOffsets f = true := by
      by_cases h0 : 0 ≤ t
      · exact .inl h0
      · exact .inr (Bool.eq_true_of_not_eq_false fun hu => h ⟨Int.not_le.mp h0, hu⟩)
    rw [if_neg h, if_pos hp]

/-- On a file whose `f_mapping->host` and `f_path.dentry->d_inode` have the same size,
`generic_file_llseek_size` and `default_llseek` are one seek but for the limit: wherever the offset
the `switch` of `default_llseek` computes is within `maxsize`, the two return the same value and
leave the file alike.  On a block device file the two sizes are those of different inodes, and
`SEEK_END` moves the two methods to different places. -/
theorem genericFileLlseekSize_eq_default (K : Kernel W) (w : W) (f : OpenFile W) (offset : Int)
    (origin : Nat) {maxsize : Int} (hsize : K.isize w f.host = K.isize w f.ino)
    (hmax : ∀ t, defaultLlseekOffset f (K.isize w f.ino) offset origin = .ok t → t ≤ maxsize) :
    callLlseek K w (.genericFileLlseekSize maxsize) f offset origin =
      callLlseek K w .defaultLlseek f offset origin := by
  show genericFileLlseekSize f (K.isize w f.host) offset origin maxsize =
    defaultLlseek f (K.isize w f.ino) offset origin
  rw [hsize, genericFileLlseekSize_eq_offset, defaultLlseek]
  cases h : defaultLlseekOffset f (K.isize w f.ino) offset origin with
  | error r => rfl
  | ok t => exact lseekExecute_eq_defaultLlseekSet f (hmax t h)

theorem genericFileLlseekSize_eq_default_set :
    Kernel.quiet.isize () OpenFile.quiet.host = Kernel.quiet.isize () OpenFile.quiet.ino ∧
      (∀ t, defaultLlseekOffset OpenFile.quiet (Kernel.quiet.isize () OpenFile.quiet.ino) 10 seekSet =
        .ok t → t ≤ 100) ∧
      callLlseek Kernel.quiet () (.genericFileLlseekSize 100) OpenFile.quiet 10 seekSet =
        callLlseek Kernel.quiet () .defaultLlseek OpenFile.quiet 10 seekSet :=
  have hsize : Kernel.quiet.isize () OpenFile.quiet.host = Kernel.quiet.isize () OpenFile.quiet.ino := rfl
  have hmax : ∀ t, defaultLlseekOffset OpenFile.quiet (Kernel.quiet.isize () OpenFile.quiet.ino) 10
      seekSet = .ok t → t ≤ 100 := fun t h => by
    have h10 : defaultLlseekOffset OpenFile.quiet (Kernel.quiet.isize () OpenFile.quiet.ino) 10
      seekSet = .ok 10 := rfl
    cases h10 ▸ h
    decide
  ⟨hsize, hmax, genericFileLlseekSize_eq_default Kernel.quiet () OpenFile.quiet 10 seekSet hsize hmax⟩

/-- On a file with signed offsets at a valid position, a seek stays in the `loff_t` range of
non-negative offsets: it leaves the file as it was or moves it to the offset it returned. -/
theorem Seeks.pos_range {f : OpenFile W} {r : Int × OpenFile W} (h : Seeks f r)
    (hs : unsignedOffsets f = false) (hpos : 0 ≤ f.pos ∧ f.pos < 2 ^ 63) :
    (r.1 < 0 ∧ r.2 = f) ∨ (0 ≤ r.1 ∧ r.1 < 2 ^ 63 ∧ r.2 = f.seekTo r.1) := by
  rcases h with ⟨h2, h1 | h1⟩ | ⟨h2, hin, h1 | h1⟩
  · exact .inl ⟨h1, h2⟩
  · exact .inr ⟨h1 ▸ hpos.1, h1 ▸ hpos.2, by rw [h2, h1, OpenFile.seekTo_pos]⟩
  · exact .inr ⟨h1, hin.2, h2⟩
  · exact absurd h1 (by rw [hs]; decide)

/-! ### Seeking to the same offset twice -/

@[simp] theorem OpenFile.seekTo_seekTo (f : OpenFile W) (offset : Int) :
    (f.seekTo offset).seekTo offset = f.seekTo offset := by
  have h := OpenFile.seekTo_pos (f.seekTo offset)
  rwa [OpenFile.pos_seekTo] at h

@[simp] theorem unsignedOffsets_seekTo (f : OpenFile W) (offset : Int) :
    unsignedOffsets (f.seekTo offset) = unsignedOffsets f := by
  unfold unsignedOffsets
  rw [OpenFile.mode_seekTo]

theorem lseekExecute_twice (f : OpenFile W) (offset maxsize : Int) :
    lseekExecute (lseekExecute f offset maxsize).2 offset maxsize = lseekExecute f offset maxsize := by
  by_cases h1 : offset < 0 ∧ unsignedOffsets f = false
  · have h : lseekExecute f offset maxsize = (einval.neg, f) := if_pos h1
    rw [h]
    exact h
  by_cases h2 : offset > maxsize
  · have h : lseekExecute f offset maxsize = (einval.neg, f) := by
      rw [lseekExecute, if_neg h1, if_pos h2]
    rw [h]
    exact h
  · have h : lseekExecute f offset maxsize = (offset, f.seekTo offset) := by
      rw [lseekExecute, if_neg h1, if_neg h2]
    rw [h]
    show lseekExecute (f.seekTo offset) offset maxsize = _
    rw [lseekExecute, unsignedOffsets_seekTo, if_neg h1, if_neg h2, OpenFile.seekTo_seekTo]

private theorem defaultLlseekSet_twice (f : OpenFile W) (offset : Int) :
    defaultLlseekSet (defaultLlseekSet f offset).2 offset = defaultLlseekSet f offset := by
  by_cases h : offset ≥ 0 ∨ unsignedOffsets f = true
  · have he : defaultLlseekSet f offset = (offset, f.seekTo offset) := if_pos h
    rw [he]
    show defaultLlseekSet (f.seekTo offset) offset = _
    rw [defaultLlseekSet, unsignedOffsets_seekTo, if_pos h, OpenFile.seekTo_seekTo]
  · have he : defaultLlseekSet f offset = (einval.neg, f) := if_neg h
    rw [he]
    exact he

private theorem host_lseekExecute (f : OpenFile W) (offset maxsize : Int) :
    (lseekExecute f offset maxsize).2.host = f.host := by
  unfold lseekExecute
  split_ifs <;> simp

/-- A `SEEK_SET` reads no size: the method moves to the offset, limited by `s_maxbytes` of
`f_mapping->host` for `generic_file_llseek`. -/
theorem callLlseek_seekSet (K : Kernel W) (w : W) (l : Llseek) (f : OpenFile W) (offset : Int) :
    callLlseek K w l f offset seekSet =
      match l with
      | .genericFileLlseek => lseekExecute f offset (K.maxbytes f.host)
      | .genericFileLlseekSize m => lseekExecute f offset m
      | .noopLlseek => (f.pos, f)
      | .noLlseek => (espipe.neg, f)
      | .defaultLlseek => defaultLlseekSet f offset := by
  cases l <;> rfl

/-- Every method, asked twice for the same `SEEK_SET`, answers the second time as it did the first
and leaves the file where the first left it. -/
private theorem callLlseek_set_twice (K : Kernel W) (w : W) (l : Llseek) (f : OpenFile W) (offset : Int) :
    callLlseek K w l (callLlseek K w l f offset seekSet).2 offset seekSet =
      callLlseek K w l f offset seekSet := by
  simp only [callLlseek_seekSet]
  cases l with
  | genericFileLlseek =>
    dsimp only
    rw [host_lseekExecute]
    exact lseekExecute_twice f offset _
  | genericFileLlseekSize m => exact lseekExecute_twice f offset m
  | noopLlseek => rfl
  | noLlseek => rfl
  | defaultLlseek => exact defaultLlseekSet_twice f offset

/-- A `SEEK_SET` leaves the file as it was or moves its position, so its method and inodes stay. -/
private theorem callLlseek_set_file (K : Kernel W) (w : W) (l : Llseek) (f : OpenFile W) (offset : Int) :
    ∃ x, (callLlseek K w l f offset seekSet).2 = f.seekTo x := by
  have hstay : ∃ x, f = f.seekTo x := ⟨f.pos, (OpenFile.seekTo_pos f).symm⟩
  have hexec : ∀ m, ∃ x, (lseekExecute f offset m).2 = f.seekTo x := fun m => by
    unfold lseekExecute
    split_ifs
    · exact hstay
    · exact hstay
    · exact ⟨offset, rfl⟩
  rw [callLlseek_seekSet]
  cases l with
  | genericFileLlseek => exact hexec _
  | genericFileLlseekSize m => exact hexec m
  | noopLlseek | noLlseek => exact hstay
  | defaultLlseek =>
    show ∃ x, (defaultLlseekSet f offset).2 = _
    unfold defaultLlseekSet
    split_ifs
    · exact ⟨offset, rfl⟩
    · exact hstay

theorem vfsLlseek_set_twice (K : Kernel W) (w : W) (f : OpenFile W) (offset : Int) :
    vfsLlseek K w (vfsLlseek K w f offset seekSet).2 offset seekSet = vfsLlseek K w f offset seekSet := by
  obtain ⟨x, hx⟩ := callLlseek_set_file K w (llseekMethod f) f offset
  unfold vfsLlseek
  rw [hx, llseekMethod_seekTo, ← hx]
  exact callLlseek_set_twice K w _ f offset

end SearchSyscall
