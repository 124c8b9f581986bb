import Bcachefs.Lib.WordStream
import Bcachefs.Bkey.Format

namespace Bcachefs
open WordStream

-- struct bkey_packed: the header and the key's words. The words are listed from
-- the high word down, the order next_word walks them on a little-endian machine.
-- There the header bytes share the low word; here they are the record's fields,
-- and the low bits of the last word, which no field reaches, stay zero.
structure BkeyPacked where
  u64s : UInt8
  format : UInt8
  needsWhiteout : Bool
  type : UInt8
  words : List UInt64
  deriving DecidableEq, Repr

-- fls64: one more than the index of the highest set bit, 0 for 0.
def fls64 (x : UInt64) : Nat := if x = 0 then 0 else x.toNat.log2 + 1

-- struct pack_state, with the format passed alongside; `words` is the key area of
-- `out` as the stores through `p` leave it.
structure PackState where
  bits : Nat
  w : UInt64
  p : Nat
  words : List UInt64

-- p = high_word(format, out), bits = 64 - high_bit_offset.
def packStateInit (out : BkeyPacked) : PackState := ⟨64,0,0,out.words⟩

def packStateFinish (state : PackState) : List UInt64 := state.words.set state.p state.w

-- __set_inc_field. A field wider than what is left of the word puts its high part
-- at the bottom of this word, stores it, and starts the next word with the rest
-- (`w = 0; bits = 64; bits -= rest; w |= v << bits`).
def rawSetIncField (format : BkeyFormat) (state : PackState) (field : BchBkeyFields) (v : UInt64) :
    PackState :=
  let bits := (format.bitsPerField field).toNat
  if bits = 0 then state
  else if bits > state.bits then
    let rest := bits - state.bits
    let w := state.w ||| (v >>> 1) >>> UInt64.ofNat (rest-1)
    ⟨64-rest,0 ||| v <<< UInt64.ofNat (64-rest),state.p+1,state.words.set state.p w⟩
  else ⟨state.bits-bits,state.w ||| v <<< UInt64.ofNat (state.bits-bits),state.p,state.words⟩

def setIncField (format : BkeyFormat) (state : PackState) (field : BchBkeyFields) (v : UInt64) :
    Option PackState :=
  let bits := (format.bitsPerField field).toNat
  let offset := format.fieldOffset field
  if v < offset then none
  else if fls64 (v - offset) > bits then none
  else some (rawSetIncField format state field (v - offset))

-- bch2_bkey_pack_key. `*w = 0` clears the low word, the last of `words`; the
-- x-macro's early `return false` is the failing bind of foldlM.
def bch2BkeyPackKey (out : BkeyPacked) (inKey : Bkey) (format : BkeyFormat) : Option BkeyPacked := do
  let state := packStateInit out
  let state := {state with words := state.words.set (format.keyU64s.toNat-1) 0}
  let state ← bkeyFields.foldlM (fun state field => setIncField format state field (inKey.field field)) state
  return {u64s := format.keyU64s + inKey.u64s - BKEY_U64s,format := KEY_FORMAT_LOCAL_BTREE,
          needsWhiteout := inKey.needsWhiteout,type := inKey.type,words := packStateFinish state}

-- struct unpack_state; `*p` past the key's words reads as 0.
structure UnpackState where
  bits : Nat
  w : UInt64
  p : Nat

def unpackStateInit (inKey : BkeyPacked) : UnpackState := ⟨64,inKey.words.getD 0 0,0⟩

-- get_inc_field. A field reaching the end of the current word takes the rest of
-- it, then moves to the next word even when nothing of that word is needed.
def getIncField (format : BkeyFormat) (inKey : BkeyPacked) (state : UnpackState) (field : BchBkeyFields) :
    UInt64 × UnpackState :=
  let bits := (format.bitsPerField field).toNat
  let offset := format.fieldOffset field
  if bits ≥ state.bits then
    let v := state.w >>> UInt64.ofNat (64-bits)
    let rest := bits - state.bits
    let w := inKey.words.getD (state.p+1) 0
    ((v ||| (w >>> 1) >>> UInt64.ofNat (63-rest)) + offset,⟨64-rest,w <<< UInt64.ofNat rest,state.p+1⟩)
  else ((state.w >>> 1) >>> UInt64.ofNat (63-bits) + offset,⟨state.bits-bits,state.w <<< UInt64.ofNat bits,state.p⟩)

-- __bch2_bkey_unpack_key. The fields of `out` not named by bkey_fields() are set
-- before the loop; the placeholders below are all overwritten by it.
def rawBch2BkeyUnpackKey (format : BkeyFormat) (inKey : BkeyPacked) : Bkey :=
  let out : Bkey := {u64s := BKEY_U64s + inKey.u64s - format.keyU64s,format := KEY_FORMAT_CURRENT,
                     needsWhiteout := inKey.needsWhiteout,type := inKey.type,pad := 0,bversion := ⟨0,0⟩,
                     size := 0,p := ⟨0,0,0⟩}
  (bkeyFields.foldl (fun acc field =>
    let read := getIncField format inKey acc.2 field
    (acc.1.setField read.1 field,read.2)) (out,unpackStateInit inKey)).1

theorem fls64_le_iff (x : UInt64) (b : Nat) : fls64 x ≤ b ↔ x.toNat < 2^b := by
  unfold fls64
  split
  · rename_i zero
    subst zero
    simp
  · rename_i nonzero
    have positive : x.toNat ≠ 0 := by
      intro equal; apply nonzero; exact UInt64.toNat_inj.mp (by simpa using equal)
    rw [← Nat.log2_lt positive]
    omega

-- A key field set_inc_field accepts: at least the offset, and within the width above it.
def InRange (format : BkeyFormat) (k : Bkey) (field : BchBkeyFields) : Prop :=
  format.fieldOffset field ≤ k.field field ∧
    (k.field field - format.fieldOffset field).toNat < 2^(format.bitsPerField field).toNat

theorem setIncField_eq (format : BkeyFormat) (state : PackState) (field : BchBkeyFields) (v : UInt64) :
    setIncField format state field v =
      if format.fieldOffset field ≤ v ∧
          (v - format.fieldOffset field).toNat < 2^(format.bitsPerField field).toNat then
        some (rawSetIncField format state field (v - format.fieldOffset field))
      else none := by
  unfold setIncField
  by_cases below : v < format.fieldOffset field
  · have notAbove : ¬ format.fieldOffset field ≤ v := UInt64.not_le.mpr below
    simp [below,notAbove]
  · have above : format.fieldOffset field ≤ v := UInt64.not_lt.mp below
    by_cases fits : (v - format.fieldOffset field).toNat < 2^(format.bitsPerField field).toNat
    · have accepted : ¬ fls64 (v - format.fieldOffset field) > (format.bitsPerField field).toNat := by
        rw [gt_iff_lt,Nat.not_lt,fls64_le_iff]; exact fits
      rw [if_neg below,if_neg accepted,if_pos ⟨above,fits⟩]
    · have rejected : fls64 (v - format.fieldOffset field) > (format.bitsPerField field).toNat := by
        rw [gt_iff_lt,← Nat.not_le,fls64_le_iff]; exact fits
      rw [if_neg below,if_pos rejected,if_neg (fun both => fits both.2)]

-- The fields of a key as the packed stream holds them: width, and value above the offset.
def packedFields (format : BkeyFormat) (k : Bkey) (fields : List BchBkeyFields) : List (Nat × Nat) :=
  fields.map fun field => ((format.bitsPerField field).toNat,(k.field field - format.fieldOffset field).toNat)

theorem packedFields_append (format : BkeyFormat) (k : Bkey) (pre post : List BchBkeyFields) :
    packedFields format k (pre ++ post) = packedFields format k pre ++ packedFields format k post := by
  simp [packedFields]

theorem fits_packedFields {format : BkeyFormat} {k : Bkey} (inRange : ∀ field, InRange format k field)
    (fields : List BchBkeyFields) : Fits (packedFields format k fields) := by
  intro f member
  obtain ⟨field,_,rfl⟩ := List.mem_map.mp member
  exact (inRange field).2

def PackState.writer (state : PackState) : Writer := ⟨state.words.take state.p,state.w,state.bits⟩

-- The pack invariant: what is stored and held spells the fields so far, at the top
-- of the key's words, and the cursor stays inside them.
structure PackState.Tracks (state : PackState) (keyWords : Nat) (fields : List (Nat × Nat)) : Prop where
  clean : state.writer.Clean
  stream : state.writer.stream = layout fields
  length : 64*(state.p+1) - state.bits = widthSum fields
  started : state.bits < 64 ∨ state.p = 0
  room : state.words.length = keyWords
  inside : state.p < keyWords
  low : state.words.getD (keyWords-1) 0 = 0 ∨ keyWords-1 ≤ state.p

theorem rawSetIncField_tracks {format : BkeyFormat} {state : PackState} {field : BchBkeyFields}
    {v : UInt64} {keyWords : Nat} {fields : List (Nat × Nat)} (tracks : state.Tracks keyWords fields)
    (wide : (format.bitsPerField field).toNat ≤ 64) (fits : v.toNat < 2^(format.bitsPerField field).toNat)
    (bound : widthSum fields + (format.bitsPerField field).toNat + 24 ≤ 64*keyWords) :
    (rawSetIncField format state field v).Tracks keyWords
      (fields ++ [((format.bitsPerField field).toNat,v.toNat)]) := by
  obtain ⟨clean,stream,length,started,room,inside,low⟩ := tracks
  have held : state.bits ≤ 64 := clean.1
  have widths : widthSum (fields ++ [((format.bitsPerField field).toNat,v.toNat)]) =
      widthSum fields + (format.bitsPerField field).toNat := by simp [widthSum]
  have layouts := layout_append_field fields ((format.bitsPerField field).toNat,v.toNat)
  dsimp only [rawSetIncField]
  split
  · -- a zero-width field stores nothing and can only hold 0
    rename_i zero
    have nothing : v.toNat = 0 := by rw [zero] at fits; omega
    rw [nothing,zero] at layouts
    rw [nothing,zero] at widths ⊢
    exact ⟨clean,by rw [layouts,stream]; simp,by omega,started,room,inside,low⟩
  · split
    · -- the high part closes the current word, which is stored
      rename_i nonzero spills
      have stored : state.p < state.words.length := by omega
      obtain ⟨clean',stream',length'⟩ := Writer.spill state.writer clean spills wide fits
      have done := take_set_succ state.words
        (state.w ||| (v >>> 1) >>> UInt64.ofNat ((format.bitsPerField field).toNat-state.bits-1)) stored
      simp only [PackState.writer] at clean' stream' length'
      simp only [Writer.length,List.length_append,List.length_take,List.length_singleton] at length'
      refine ⟨?_,?_,?_,?_,?_,?_,?_⟩
      · simpa only [PackState.writer,done] using clean'
      · simp only [PackState.writer,done]
        rw [stream',layouts,← stream]; rfl
      · dsimp only; omega
      · dsimp only; omega
      · simp [room]
      · dsimp only; omega
      · dsimp only
        by_cases near : keyWords-1 ≤ state.p+1
        · exact .inr near
        · have apart : state.p ≠ keyWords-1 := by omega
          rcases low with zero | far
          · left
            simpa [List.getD_eq_getElem?_getD,List.getElem?_set_ne apart] using zero
          · omega
    · -- the field fits below what the word already holds
      rename_i nonzero fitsWord
      have pos : 0 < (format.bitsPerField field).toNat := by omega
      obtain ⟨clean',stream',length'⟩ :=
        Writer.fill state.writer clean pos (by simp only [PackState.writer]; omega) fits
      refine ⟨clean',?_,?_,by dsimp only; omega,room,inside,low⟩
      · simp only [PackState.writer] at stream' stream ⊢
        rw [stream',layouts,stream]
      · dsimp only; omega

theorem rawSetIncField_zeros {format : BkeyFormat} {state : PackState} {field : BchBkeyFields} {v : UInt64}
    (zeros : ∀ j, state.p < j → state.words.getD j 0 = 0) :
    ∀ j, (rawSetIncField format state field v).p < j → (rawSetIncField format state field v).words.getD j 0 = 0 := by
  dsimp only [rawSetIncField]
  split
  · exact zeros
  · split
    · intro j past
      have apart : state.p ≠ j := by dsimp only at past; omega
      simp only [List.getD_eq_getElem?_getD,List.getElem?_set_ne apart]
      simpa [List.getD_eq_getElem?_getD] using zeros j (by dsimp only at past; omega)
    · exact zeros

theorem packFields_isSome (format : BkeyFormat) (k : Bkey) (fields : List BchBkeyFields) (state : PackState) :
    (fields.foldlM (fun state field => setIncField format state field (k.field field)) state).isSome ↔
      ∀ field ∈ fields, InRange format k field := by
  induction fields generalizing state with
  | nil => simp
  | cons field rest ih =>
    rw [List.foldlM_cons,setIncField_eq]
    by_cases range : InRange format k field
    · rw [if_pos (show _ ∧ _ from range),Option.bind_eq_bind,Option.bind_some,ih]
      simp [range]
    · rw [if_neg (show ¬(_ ∧ _) from range)]
      simp [range]

theorem packFields_tracks {format : BkeyFormat} {k : Bkey} {fields : List BchBkeyFields} {state final : PackState}
    {pre : List (Nat × Nat)} {keyWords : Nat} (tracks : state.Tracks keyWords pre)
    (wide : ∀ field ∈ fields, (format.bitsPerField field).toNat ≤ 64)
    (bound : widthSum pre + widthSum (packedFields format k fields) + 24 ≤ 64*keyWords)
    (packed : fields.foldlM (fun state field => setIncField format state field (k.field field)) state = some final) :
    final.Tracks keyWords (pre ++ packedFields format k fields) := by
  induction fields generalizing state pre with
  | nil => cases packed; simpa [packedFields] using tracks
  | cons field rest ih =>
    rw [List.foldlM_cons,setIncField_eq] at packed
    split at packed
    · rename_i range
      rw [Option.bind_eq_bind,Option.bind_some] at packed
      have first : packedFields format k (field :: rest) =
          ((format.bitsPerField field).toNat,(k.field field - format.fieldOffset field).toNat) ::
            packedFields format k rest := rfl
      rw [first,widthSum_cons] at bound
      have next := rawSetIncField_tracks tracks (wide field (by simp)) range.2 (by omega)
      have rest_bound : widthSum (pre ++ [((format.bitsPerField field).toNat,
          (k.field field - format.fieldOffset field).toNat)]) + widthSum (packedFields format k rest) + 24 ≤
          64*keyWords := by
        rw [widthSum_append,widthSum_cons,widthSum_nil]
        omega
      have done := ih next (fun g member => wide g (by simp [member])) rest_bound packed
      rwa [first,← List.singleton_append,← List.append_assoc]
    · cases packed

theorem value_packStateFinish_of_zeros {state : PackState} {keyWords : Nat} {fields : List (Nat × Nat)}
    (tracks : state.Tracks keyWords fields) (zeros : ∀ j, state.p < j → state.words.getD j 0 = 0) :
    value (packStateFinish state) = layout fields * 2^(64*keyWords - widthSum fields) := by
  obtain ⟨clean,stream,length,started,room,inside,low⟩ := tracks
  have held : state.bits ≤ 64 := clean.1
  have head := take_set_succ state.words state.w (room ▸ inside)
  have tail : (state.words.set state.p state.w).drop (state.p+1) =
      List.replicate (keyWords-(state.p+1)) 0 := by
    rw [List.drop_set,if_pos (Nat.lt_succ_self _),List.eq_replicate_iff]
    refine ⟨by simp [room],fun word member => ?_⟩
    obtain ⟨i,bounded,rfl⟩ := List.mem_iff_getElem.mp member
    simp only [List.length_drop] at bounded
    have zero := zeros (state.p+1+i) (by omega)
    rw [List.getElem_drop]
    simpa [List.getD_eq_getElem?_getD,List.getElem?_eq_getElem (by omega : state.p+1+i < state.words.length)]
      using zero
  have whole := Writer.stream_mul state.writer clean
  simp only [PackState.writer] at whole stream
  unfold packStateFinish
  rw [← List.take_append_drop (state.p+1) (state.words.set state.p state.w),head,tail,value_append,
    value_replicate_zero,Nat.add_zero,value_append_word,← whole,stream,List.length_replicate,Nat.mul_assoc,
    ← Nat.pow_add]
  congr 2
  omega

theorem value_packStateFinish {state : PackState} {keyWords : Nat} {fields : List (Nat × Nat)}
    (tracks : state.Tracks keyWords fields) (full : 64*(keyWords-1) < widthSum fields + 24) :
    value (packStateFinish state) = layout fields * 2^(64*keyWords - widthSum fields) := by
  apply value_packStateFinish_of_zeros tracks
  intro j past
  have held : state.bits ≤ 64 := tracks.clean.1
  have length := tracks.length
  by_cases inside : j < keyWords
  · have last : j = keyWords-1 := by omega
    rcases tracks.low with zero | far
    · rw [last]; exact zero
    · omega
  · exact List.getD_eq_default _ _ (by rw [tracks.room]; omega)

def UnpackState.reader (state : UnpackState) : Reader := ⟨state.p,state.w,state.bits⟩

theorem getIncField_reads {format : BkeyFormat} {inKey : BkeyPacked} {state : UnpackState}
    {field : BchBkeyFields} (aligned : state.reader.Aligned inKey.words)
    (wide : (format.bitsPerField field).toNat ≤ 64)
    (bound : state.reader.consumed + (format.bitsPerField field).toNat ≤ 64*inKey.words.length) :
    (getIncField format inKey state field).2.reader.Aligned inKey.words ∧
      (getIncField format inKey state field).2.reader.consumed =
        state.reader.consumed + (format.bitsPerField field).toNat ∧
      (getIncField format inKey state field).1 =
        UInt64.ofNat (window (value inKey.words)
          (64*inKey.words.length - state.reader.consumed - (format.bitsPerField field).toNat)
          (format.bitsPerField field).toNat) + format.fieldOffset field := by
  dsimp only [getIncField]
  split
  · rename_i reaches
    obtain ⟨aligned',consumed',read⟩ := Reader.read_across inKey.words state.reader aligned reaches wide bound
    refine ⟨aligned',consumed',?_⟩
    rw [← read,UInt64.ofNat_toNat]; rfl
  · rename_i short
    obtain ⟨aligned',consumed',read⟩ :=
      Reader.read_within inKey.words state.reader aligned (Nat.lt_of_not_le short) bound
    refine ⟨aligned',consumed',?_⟩
    rw [← read,UInt64.ofNat_toNat]; rfl

theorem unpackStateInit_reader (inKey : BkeyPacked) :
    (unpackStateInit inKey).reader.Aligned inKey.words ∧ (unpackStateInit inKey).reader.consumed = 0 := by
  refine ⟨⟨by simp [unpackStateInit,UnpackState.reader],by simp [unpackStateInit,UnpackState.reader],?_⟩,rfl⟩
  simp only [unpackStateInit,UnpackState.reader,Nat.sub_self,Nat.pow_zero,Nat.mul_one]
  exact (Nat.mod_eq_of_lt (UInt64.toNat_lt _)).symm

section Unpack
variable {format : BkeyFormat} {k : Bkey} {inKey : BkeyPacked}

theorem unpackFields_restore
    (spelled : value inKey.words = layout (packedFields format k bkeyFields) *
      2^(64*inKey.words.length - widthSum (packedFields format k bkeyFields)))
    (fitsWords : widthSum (packedFields format k bkeyFields) ≤ 64*inKey.words.length)
    (inRange : ∀ field, InRange format k field) (wide : ∀ field, (format.bitsPerField field).toNat ≤ 64) :
    ∀ (rest pre : List BchBkeyFields) (out : Bkey) (state : UnpackState), pre ++ rest = bkeyFields →
      state.reader.Aligned inKey.words → state.reader.consumed = widthSum (packedFields format k pre) →
      (rest.foldl (fun acc field =>
        let read := getIncField format inKey acc.2 field
        (acc.1.setField read.1 field,read.2)) (out,state)).1 =
      rest.foldl (fun out field => out.setField (k.field field) field) out := by
  intro rest
  induction rest with
  | nil => intro pre out state _ _ _; rfl
  | cons field rest ih =>
    intro pre out state whole aligned consumed
    have layout_whole : packedFields format k bkeyFields =
        packedFields format k pre ++ ((format.bitsPerField field).toNat,
          (k.field field - format.fieldOffset field).toNat) :: packedFields format k rest := by
      rw [← whole,packedFields_append]; rfl
    have widths : widthSum (packedFields format k bkeyFields) = widthSum (packedFields format k pre) +
        (format.bitsPerField field).toNat + widthSum (packedFields format k rest) := by
      rw [layout_whole,widthSum_append,widthSum_cons]; omega
    obtain ⟨aligned',consumed',read⟩ := @getIncField_reads format inKey state field aligned (wide field) (by omega)
    have value_read : (getIncField format inKey state field).1 = k.field field := by
      rw [read,spelled,consumed]
      generalize padding : 64*inKey.words.length - widthSum (packedFields format k bkeyFields) = pad
      have position : 64*inKey.words.length - widthSum (packedFields format k pre) -
          (format.bitsPerField field).toNat = widthSum (packedFields format k rest) + pad := by omega
      rw [position,layout_whole,window_layout _ _ _ (fits_packedFields inRange rest) (inRange field).2,
        UInt64.ofNat_toNat,UInt64.sub_add_cancel]
    simp only [List.foldl_cons]
    rw [value_read]
    exact ih (pre ++ [field]) _ _ (by rw [← whole]; simp) aligned'
      (by rw [consumed',consumed,packedFields_append,widthSum_append]; simp [packedFields])

end Unpack

theorem setFields_restore (k out : Bkey) :
    let rebuilt := bkeyFields.foldl (fun out field => out.setField (k.field field) field) out
    rebuilt.p = k.p ∧ rebuilt.size = k.size ∧ rebuilt.bversion = k.bversion ∧ rebuilt.u64s = out.u64s ∧
      rebuilt.type = out.type ∧ rebuilt.needsWhiteout = out.needsWhiteout := by
  simp [bkeyFields,Bkey.setField,Bkey.field]

-- The start of bch2_bkey_pack_key's loop: an empty writer at the high word,
-- with the low word cleared.
def packStart (format : BkeyFormat) (out : BkeyPacked) : PackState :=
  {packStateInit out with words := out.words.set (format.keyU64s.toNat-1) 0}

theorem bch2BkeyPackKey_eq (out : BkeyPacked) (k : Bkey) (format : BkeyFormat) :
    bch2BkeyPackKey out k format =
      (bkeyFields.foldlM (fun state field => setIncField format state field (k.field field))
        (packStart format out)).map fun state =>
          {u64s := format.keyU64s + k.u64s - BKEY_U64s,format := KEY_FORMAT_LOCAL_BTREE,
           needsWhiteout := k.needsWhiteout,type := k.type,words := packStateFinish state} := by
  unfold bch2BkeyPackKey
  change (bkeyFields.foldlM _ (packStart format out) >>= _) = _
  cases bkeyFields.foldlM (fun state field => setIncField format state field (k.field field))
    (packStart format out) <;> rfl

theorem packStart_tracks (format : BkeyFormat) (out : BkeyPacked) (room : out.words.length = format.keyU64s.toNat)
    (some_word : 0 < format.keyU64s.toNat) : (packStart format out).Tracks format.keyU64s.toNat [] := by
  refine ⟨⟨Nat.le_refl _,rfl⟩,?_,rfl,.inr rfl,by simp [packStart,packStateInit,room],some_word,.inl ?_⟩
  · simp [PackState.writer,Writer.stream,packStart,packStateInit,layout]
  · simp [packStart,packStateInit,List.getD_eq_getElem?_getD,room,some_word]

theorem widthSum_packedFields (format : BkeyFormat) (k : Bkey) (fields : List BchBkeyFields) :
    widthSum (packedFields format k fields) = (fields.map fun field => (format.bitsPerField field).toNat).sum := by
  simp [packedFields,widthSum,Function.comp_def]

-- What a successful bch2_bkey_pack_key leaves: every field was in range, and
-- the key's words spell the fields at their top.
structure PackedSpells (format : BkeyFormat) (k : Bkey) (packed : BkeyPacked) : Prop where
  inRange : ∀ field, InRange format k field
  length : packed.words.length = format.keyU64s.toNat
  spelled : value packed.words = layout (packedFields format k bkeyFields) *
    2^(64*packed.words.length - widthSum (packedFields format k bkeyFields))
  fitsWords : widthSum (packedFields format k bkeyFields) + KEY_PACKED_BITS_START ≤ 64*packed.words.length
  u64s : packed.u64s = format.keyU64s + k.u64s - BKEY_U64s
  format : packed.format = KEY_FORMAT_LOCAL_BTREE
  type : packed.type = k.type
  needsWhiteout : packed.needsWhiteout = k.needsWhiteout

theorem bch2BkeyPackKey_spells {format : BkeyFormat} {out packed : BkeyPacked} {k : Bkey}
    (valid : bch2BkeyFormatInvalid format = .ok ()) (room : out.words.length = format.keyU64s.toNat)
    (pack : bch2BkeyPackKey out k format = some packed) : PackedSpells format k packed := by
  obtain ⟨wide,keyWords⟩ := format_valid_facts valid
  have total : widthSum (packedFields format k bkeyFields) + KEY_PACKED_BITS_START = bkeyFormatBits format := by
    rw [widthSum_packedFields,bkeyFormatBits]; omega
  unfold DIV_ROUND_UP KEY_PACKED_BITS_START at *
  rw [bch2BkeyPackKey_eq] at pack
  obtain ⟨final,loop,built⟩ := Option.map_eq_some_iff.mp pack
  have inRange : ∀ field, InRange format k field := by
    have all := (packFields_isSome format k bkeyFields (packStart format out)).mp (by rw [loop]; rfl)
    exact fun field => all field (mem_bkeyFields field)
  have tracks := packFields_tracks (packStart_tracks format out room (by omega))
    (fun field _ => wide field) (by simp only [widthSum_nil]; omega) loop
  simp only [List.nil_append] at tracks
  have words : packed.words = packStateFinish final := by rw [← built]
  have length : packed.words.length = format.keyU64s.toNat := by
    rw [words,packStateFinish,List.length_set]; exact tracks.room
  have spelled := value_packStateFinish tracks (by omega)
  rw [← words,← length] at spelled
  have header : packed.u64s = format.keyU64s + k.u64s - BKEY_U64s ∧ packed.format = KEY_FORMAT_LOCAL_BTREE ∧
      packed.type = k.type ∧ packed.needsWhiteout = k.needsWhiteout := by
    rw [← built]; exact ⟨rfl,rfl,rfl,rfl⟩
  exact ⟨inRange,length,spelled,by unfold KEY_PACKED_BITS_START; omega,header.1,header.2.1,header.2.2.1,
    header.2.2.2⟩

theorem unpack_spelled {format : BkeyFormat} {k : Bkey} {packed : BkeyPacked}
    (wide : ∀ field, (format.bitsPerField field).toNat ≤ 64) (spells : PackedSpells format k packed) :
    let unpacked := rawBch2BkeyUnpackKey format packed
    unpacked.p = k.p ∧ unpacked.size = k.size ∧ unpacked.bversion = k.bversion ∧ unpacked.type = k.type ∧
      unpacked.needsWhiteout = k.needsWhiteout ∧ unpacked.u64s = k.u64s := by
  have start := unpackStateInit_reader packed
  have fitsWords := spells.fitsWords
  unfold KEY_PACKED_BITS_START at fitsWords
  simp only [rawBch2BkeyUnpackKey]
  rw [unpackFields_restore spells.spelled (by omega) spells.inRange wide bkeyFields [] _ _ rfl start.1 start.2]
  obtain ⟨p,size,bversion,u64s,type,needsWhiteout⟩ := setFields_restore k
    {u64s := BKEY_U64s + packed.u64s - format.keyU64s,format := KEY_FORMAT_CURRENT,
     needsWhiteout := packed.needsWhiteout,type := packed.type,pad := 0,bversion := ⟨0,0⟩,size := 0,
     p := ⟨0,0,0⟩}
  refine ⟨p,size,bversion,type.trans spells.type,needsWhiteout.trans spells.needsWhiteout,?_⟩
  rw [u64s,spells.u64s]
  abel_nf

theorem pack_key_unpack_roundtrip (format : BkeyFormat) (valid : bch2BkeyFormatInvalid format = .ok ())
    (out : BkeyPacked) (room : out.words.length = format.keyU64s.toNat) (k : Bkey) :
    ((bch2BkeyPackKey out k format).isSome ↔ ∀ field, format.fieldOffset field ≤ k.field field ∧
        (k.field field - format.fieldOffset field).toNat < 2^(format.bitsPerField field).toNat) ∧
    ∀ packed, bch2BkeyPackKey out k format = some packed →
      let unpacked := rawBch2BkeyUnpackKey format packed
      unpacked.p = k.p ∧ unpacked.size = k.size ∧ unpacked.bversion = k.bversion ∧ unpacked.type = k.type ∧
        unpacked.needsWhiteout = k.needsWhiteout ∧ unpacked.u64s = k.u64s := by
  refine ⟨?_,fun packed pack => unpack_spelled (format_valid_facts valid).1 (bch2BkeyPackKey_spells valid room pack)⟩
  rw [bch2BkeyPackKey_eq,Option.isSome_map,packFields_isSome]
  exact ⟨fun all field => all field (mem_bkeyFields field),fun all field _ => all field⟩

-- test_format and the key of bch2_bkey_pack_test.
def packTestFormat : BkeyFormat where
  keyU64s := 3
  nrFields := 6
  bitsPerField
    | .inode => 13
    | .offset => 64
    | .snapshot => 32
    | _ => 0
  fieldOffset _ := 0

def packTestKey : Bkey :=
  {u64s := BKEY_U64s,format := KEY_FORMAT_CURRENT,needsWhiteout := false,type := 0,pad := 0,
   bversion := ⟨0,0⟩,size := 0,p := ⟨4134,1250629070527416633,0⟩}

theorem pack_test_key_roundtrip : bch2BkeyFormatInvalid packTestFormat = .ok () ∧
    (bch2BkeyPackKey ⟨0,0,false,0,[0,0,0]⟩ packTestKey packTestFormat).map
      (fun packed => (rawBch2BkeyUnpackKey packTestFormat packed).p) = some packTestKey.p := by
  have valid : bch2BkeyFormatInvalid packTestFormat = .ok () := by decide
  obtain ⟨accepted,roundtrip⟩ := pack_key_unpack_roundtrip packTestFormat valid ⟨0,0,false,0,[0,0,0]⟩ rfl packTestKey
  have inRange : ∀ field, packTestFormat.fieldOffset field ≤ packTestKey.field field ∧
      (packTestKey.field field - packTestFormat.fieldOffset field).toNat < 2^(packTestFormat.bitsPerField field).toNat := by
    intro field; cases field <;> decide
  obtain ⟨packed,pack⟩ := Option.isSome_iff_exists.mp (accepted.mpr inRange)
  refine ⟨valid,?_⟩
  rw [pack,Option.map_some,(roundtrip packed pack).1]

end Bcachefs
