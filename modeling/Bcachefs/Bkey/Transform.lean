import Bcachefs.Bkey.FormatState

namespace Bcachefs
open WordStream

-- bch2_bkey_transform_key. `*w = 0` clears the low word and the header bytes it
-- shares, so the format is left KEY_FORMAT_LOCAL_BTREE; the loop reads each field
-- of `in` with get_inc_field and stores it with set_inc_field, and a field out_f
-- cannot hold ends it, as `return false` does.
def bch2BkeyTransformKey (outF : BkeyFormat) (out : BkeyPacked) (inF : BkeyFormat) (inKey : BkeyPacked) :
    Option BkeyPacked := do
  let outS := packStateInit out
  let outS := {outS with words := outS.words.set (outF.keyU64s.toNat-1) 0}
  let states ← bkeyFields.foldlM (fun (states : UnpackState × PackState) field =>
    let read := getIncField inF inKey states.1 field
    (setIncField outF states.2 field read.1).map fun outS => (read.2,outS)) (unpackStateInit inKey,outS)
  return {u64s := outF.keyU64s + inKey.u64s - inF.keyU64s,format := KEY_FORMAT_LOCAL_BTREE,
          needsWhiteout := inKey.needsWhiteout,type := inKey.type,words := packStateFinish states.2}

-- bch2_bkey_transform. The value words of `in` follow its key words in memory;
-- memcpy_u64s copies in->u64s - in_f->key_u64s of them behind the key of `out`.
def bch2BkeyTransform (outF : BkeyFormat) (out : BkeyPacked) (inF : BkeyFormat) (inKey : BkeyPacked)
    (inVal : List UInt64) : Option (BkeyPacked × List UInt64) :=
  (bch2BkeyTransformKey outF out inF inKey).map fun key =>
    (key,inVal.take (inKey.u64s.toNat - inF.keyU64s.toNat))

theorem div_two_pow_lt {x n k : Nat} (small : x < 2^n) (le : k ≤ n) : x / 2^(n-k) < 2^k :=
  Nat.div_lt_of_lt_mul (by rw [← Nat.pow_add,Nat.sub_add_cancel le]; exact small)

theorem toNat_half_lt (w : UInt64) : (w >>> 1).toNat < 2^63 := by
  rw [UInt64.toNat_shiftRight,show (1 : UInt64).toNat % 64 = 1 from rfl,Nat.shiftRight_one]
  have := w.toNat_lt
  omega

theorem getIncField_raw {format : BkeyFormat} {inKey : BkeyPacked} {state : UnpackState} {field : BchBkeyFields}
    (wide : (format.bitsPerField field).toNat ≤ 64) (low : 1 ≤ state.bits) (high : state.bits ≤ 64) :
    ∃ x : UInt64, (getIncField format inKey state field).1 = x + format.fieldOffset field ∧
      x.toNat < 2^(format.bitsPerField field).toNat ∧
      1 ≤ (getIncField format inKey state field).2.bits ∧ (getIncField format inKey state field).2.bits ≤ 64 := by
  dsimp only [getIncField]
  split
  · rename_i reaches
    have top := toNat_shiftRight_lt state.w (k := 64-(format.bitsPerField field).toNat) (by omega)
    have rest := toNat_shiftRight_lt (inKey.words.getD (state.p+1) 0 >>> 1)
      (k := 63-((format.bitsPerField field).toNat-state.bits)) (by omega)
    refine ⟨_,rfl,?_,by dsimp only; omega,by dsimp only; omega⟩
    rw [UInt64.toNat_or,top,rest]
    apply Nat.or_lt_two_pow
    · exact div_two_pow_lt state.w.toNat_lt wide
    · have within := div_two_pow_lt (toNat_half_lt (inKey.words.getD (state.p+1) 0))
        (k := (format.bitsPerField field).toNat-state.bits) (by omega)
      exact Nat.lt_of_lt_of_le within (Nat.pow_le_pow_right (by decide) (by omega))
  · rename_i short
    refine ⟨_,rfl,?_,by dsimp only; omega,by dsimp only; omega⟩
    rw [toNat_shiftRight_lt _ (by omega)]
    exact div_two_pow_lt (toNat_half_lt state.w) (by omega)

theorem Bkey.setField_header (k : Bkey) (v : UInt64) (i : BchBkeyFields) :
    (k.setField v i).u64s = k.u64s ∧ (k.setField v i).format = k.format ∧
      (k.setField v i).needsWhiteout = k.needsWhiteout ∧ (k.setField v i).type = k.type ∧
      (k.setField v i).pad = k.pad := by
  cases i <;> exact ⟨rfl,rfl,rfl,rfl,rfl⟩

section Simulation
variable {inF outF : BkeyFormat} {inKey : BkeyPacked}

theorem unpackFields_frame (j : BchBkeyFields) :
    ∀ (rest : List BchBkeyFields) (acc : Bkey) (state : UnpackState), j ∉ rest →
      (rest.foldl (fun acc field =>
        let read := getIncField inF inKey acc.2 field
        (acc.1.setField read.1 field,read.2)) (acc,state)).1.field j = acc.field j := by
  intro rest
  induction rest with
  | nil => intro acc state _; rfl
  | cons field rest ih =>
    intro acc state absent
    rw [List.foldl_cons,ih _ _ (fun mem => absent (List.mem_cons_of_mem _ mem)),
      Bkey.field_setField_ne _ _ (fun same : j = field => absent (same ▸ List.mem_cons_self))]

theorem transformFields_eq (inFits : ∀ i, FieldFits inF i) :
    ∀ (rest : List BchBkeyFields) (acc : Bkey) (inS : UnpackState) (outS : PackState), rest.Nodup →
      1 ≤ inS.bits → inS.bits ≤ 64 →
      (rest.foldlM (fun (states : UnpackState × PackState) field =>
        let read := getIncField inF inKey states.1 field
        (setIncField outF states.2 field read.1).map fun outS => (read.2,outS)) (inS,outS)).map Prod.snd =
      rest.foldlM (fun state field => setIncField outF state field
        ((rest.foldl (fun acc field =>
          let read := getIncField inF inKey acc.2 field
          (acc.1.setField read.1 field,read.2)) (acc,inS)).1.field field)) outS := by
  intro rest
  induction rest with
  | nil => intro acc inS outS _ _ _; rfl
  | cons field rest ih =>
    intro acc inS outS distinct low high
    obtain ⟨absent,distinct'⟩ := List.nodup_cons.mp distinct
    obtain ⟨x,value,small,low',high'⟩ := @getIncField_raw inF inKey inS field
      (Nat.le_trans (inFits field).bits_le (current_bits_le field)) low high
    have fitsUnpacked : (getIncField inF inKey inS field).1.toNat < 2^(bch2BkeyFormatCurrent.bitsPerField field).toNat := by
      have top := (inFits field).top
      rw [value,toNat_add_offset (inFits field) small]
      omega
    have readBack : (rest.foldl (fun acc field =>
          let read := getIncField inF inKey acc.2 field
          (acc.1.setField read.1 field,read.2))
        (acc.setField (getIncField inF inKey inS field).1 field,(getIncField inF inKey inS field).2)).1.field field =
        (getIncField inF inKey inS field).1 := by
      rw [unpackFields_frame field rest _ _ absent,Bkey.field_setField_self _ fitsUnpacked]
    simp only [List.foldlM_cons,List.foldl_cons]
    rw [readBack]
    cases stored : setIncField outF outS field (getIncField inF inKey inS field).1 with
    | none => rfl
    | some outS' =>
      simp only [Option.map_some,Option.bind_eq_bind,Option.bind_some]
      exact ih _ _ outS' distinct' low' high'

theorem unpackFields_header :
    ∀ (rest : List BchBkeyFields) (acc : Bkey) (state : UnpackState),
      let built := (rest.foldl (fun acc field =>
        let read := getIncField inF inKey acc.2 field
        (acc.1.setField read.1 field,read.2)) (acc,state)).1
      built.u64s = acc.u64s ∧ built.format = acc.format ∧ built.needsWhiteout = acc.needsWhiteout ∧
        built.type = acc.type ∧ built.pad = acc.pad := by
  intro rest
  induction rest with
  | nil => intro acc state; exact ⟨rfl,rfl,rfl,rfl,rfl⟩
  | cons field rest ih =>
    intro acc state
    obtain ⟨u64s,format,needsWhiteout,type,pad⟩ := ih (acc.setField (getIncField inF inKey state field).1 field)
      (getIncField inF inKey state field).2
    obtain ⟨u64s',format',needsWhiteout',type',pad'⟩ := Bkey.setField_header acc (getIncField inF inKey state field).1 field
    exact ⟨u64s.trans u64s',format.trans format',needsWhiteout.trans needsWhiteout',type.trans type',pad.trans pad'⟩

end Simulation

theorem bch2BkeyTransformKey_eq {inF : BkeyFormat} (inFits : ∀ i, FieldFits inF i) (outF : BkeyFormat)
    (out inKey : BkeyPacked) :
    bch2BkeyTransformKey outF out inF inKey = bch2BkeyPackKey out (rawBch2BkeyUnpackKey inF inKey) outF := by
  have loop := @transformFields_eq inF outF inKey inFits bkeyFields
    {u64s := BKEY_U64s + inKey.u64s - inF.keyU64s,format := KEY_FORMAT_CURRENT,needsWhiteout := inKey.needsWhiteout,
     type := inKey.type,pad := 0,bversion := ⟨0,0⟩,size := 0,p := ⟨0,0,0⟩} (unpackStateInit inKey)
    (packStart outF out) (by decide) (by show 1 ≤ 64; decide) (by show 64 ≤ 64; decide)
  obtain ⟨u64s,_,needsWhiteout,type,_⟩ := @unpackFields_header inF inKey bkeyFields
    {u64s := BKEY_U64s + inKey.u64s - inF.keyU64s,format := KEY_FORMAT_CURRENT,needsWhiteout := inKey.needsWhiteout,
     type := inKey.type,pad := 0,bversion := ⟨0,0⟩,size := 0,p := ⟨0,0,0⟩} (unpackStateInit inKey)
  have start : ({packStateInit out with words := (packStateInit out).words.set (outF.keyU64s.toNat-1) 0} :
      PackState) = packStart outF out := rfl
  dsimp only at loop
  change _ = List.foldlM (fun state field => setIncField outF state field
    ((rawBch2BkeyUnpackKey inF inKey).field field)) (packStart outF out) bkeyFields at loop
  rw [bch2BkeyPackKey_eq]
  unfold bch2BkeyTransformKey
  dsimp only
  rw [start,bind_pure_comp,← loop,Option.map_eq_map,Option.map_map]
  have headerU64s : (rawBch2BkeyUnpackKey inF inKey).u64s = BKEY_U64s + inKey.u64s - inF.keyU64s := u64s
  have headerWhiteout : (rawBch2BkeyUnpackKey inF inKey).needsWhiteout = inKey.needsWhiteout := needsWhiteout
  have headerType : (rawBch2BkeyUnpackKey inF inKey).type = inKey.type := type
  congr 1
  funext states
  rw [Function.comp_apply,headerU64s,headerWhiteout,headerType]
  congr 1
  abel

attribute [ext] Bkey

-- bch2_bkey_transform between two valid formats succeeds exactly when out_f holds
-- every field of the key `in` unpacks to, and then `out` unpacks to the same key
-- and carries the same value words.
theorem bkey_transform_unpacks_alike {inF outF : BkeyFormat} (inValid : bch2BkeyFormatInvalid inF = .ok ())
    (outValid : bch2BkeyFormatInvalid outF = .ok ()) {out : BkeyPacked} (room : out.words.length = outF.keyU64s.toNat)
    (inKey : BkeyPacked) (inVal : List UInt64) (valWords : inVal.length = inKey.u64s.toNat - inF.keyU64s.toNat) :
    ((bch2BkeyTransform outF out inF inKey inVal).isSome ↔
        ∀ field, InRange outF (rawBch2BkeyUnpackKey inF inKey) field) ∧
      ∀ key outVal, bch2BkeyTransform outF out inF inKey inVal = some (key,outVal) →
        rawBch2BkeyUnpackKey outF key = rawBch2BkeyUnpackKey inF inKey ∧ outVal = inVal := by
  have transform := bch2BkeyTransformKey_eq (fits_of_valid inValid) outF out inKey
  obtain ⟨accepted,roundtrip⟩ := pack_key_unpack_roundtrip outF outValid out room (rawBch2BkeyUnpackKey inF inKey)
  refine ⟨?_,fun key outVal transformed => ?_⟩
  · rw [bch2BkeyTransform,Option.isSome_map,transform]
    exact accepted
  · rw [bch2BkeyTransform,transform] at transformed
    obtain ⟨packed,pack,same⟩ := Option.map_eq_some_iff.mp transformed
    obtain ⟨rfl,rfl⟩ := Prod.mk.inj same
    obtain ⟨p,size,bversion,type,needsWhiteout,u64s⟩ := roundtrip packed pack
    obtain ⟨-,format,-,-,pad⟩ := @unpackFields_header outF packed bkeyFields _ (unpackStateInit packed)
    obtain ⟨-,format',-,-,pad'⟩ := @unpackFields_header inF inKey bkeyFields _ (unpackStateInit inKey)
    refine ⟨Bkey.ext u64s (format.trans format'.symm) needsWhiteout type (pad.trans pad'.symm) bversion size p,?_⟩
    exact List.take_of_length_le (Nat.le_of_eq valWords)

theorem bkey_transform_test_to_current :
    bch2BkeyFormatInvalid packTestFormat = .ok () ∧ bch2BkeyFormatInvalid bch2BkeyFormatCurrent = .ok () ∧
      ((bch2BkeyTransform bch2BkeyFormatCurrent ⟨0,0,false,0,[0,0,0,0,0]⟩ packTestFormat
          ⟨3,KEY_FORMAT_LOCAL_BTREE,false,0,[0,0,0]⟩ []).isSome ↔
        ∀ field, InRange bch2BkeyFormatCurrent
          (rawBch2BkeyUnpackKey packTestFormat ⟨3,KEY_FORMAT_LOCAL_BTREE,false,0,[0,0,0]⟩) field) ∧
      ∀ key outVal, bch2BkeyTransform bch2BkeyFormatCurrent ⟨0,0,false,0,[0,0,0,0,0]⟩ packTestFormat
          ⟨3,KEY_FORMAT_LOCAL_BTREE,false,0,[0,0,0]⟩ [] = some (key,outVal) →
        rawBch2BkeyUnpackKey bch2BkeyFormatCurrent key =
          rawBch2BkeyUnpackKey packTestFormat ⟨3,KEY_FORMAT_LOCAL_BTREE,false,0,[0,0,0]⟩ ∧ outVal = [] :=
  ⟨by decide,by decide,@bkey_transform_unpacks_alike packTestFormat bch2BkeyFormatCurrent (by decide) (by decide) _ rfl
    ⟨3,KEY_FORMAT_LOCAL_BTREE,false,0,[0,0,0]⟩ [] rfl⟩

-- The test key packed in the test format and moved to the current format
-- unpacks to its own position.
example : ((bch2BkeyPackKey ⟨0,0,false,0,[0,0,0]⟩ packTestKey packTestFormat).bind fun packed =>
      (bch2BkeyTransform bch2BkeyFormatCurrent ⟨0,0,false,0,[0,0,0,0,0]⟩ packTestFormat packed []).map fun moved =>
        (rawBch2BkeyUnpackKey bch2BkeyFormatCurrent moved.1).p) = some packTestKey.p := by
  decide

end Bcachefs
