import Bcachefs.Util.Varint
import Bcachefs.Lib.Bitfield

namespace Bcachefs
open Bytes

-- BCH_INODE_FIELDS_v3(), in the order of the x-macro.
inductive BchInodeField where
  | biAtime | biCtime | biMtime | biOtime
  | biUid | biGid | biNlink | biGeneration | biDev
  | biDataChecksum | biCompression | biProject | biBackgroundCompression | biDataReplicas
  | biPromoteTarget | biForegroundTarget | biBackgroundTarget | biErasureCode | biFieldsSet
  | biDir | biDirOffset | biSubvol | biParentSubvol | biNocow | biDepth | biInodes32bit | biCasefold
  deriving DecidableEq, Repr

-- The x-macro's second column.
def BchInodeField.bits : BchInodeField → Nat
  | .biAtime | .biCtime | .biMtime | .biOtime => 96
  | .biUid | .biGid | .biNlink | .biGeneration | .biDev => 32
  | .biDataChecksum | .biCompression => 8
  | .biProject => 32
  | .biBackgroundCompression | .biDataReplicas => 8
  | .biPromoteTarget | .biForegroundTarget | .biBackgroundTarget | .biErasureCode | .biFieldsSet => 16
  | .biDir | .biDirOffset => 64
  | .biSubvol | .biParentSubvol => 32
  | .biNocow => 8
  | .biDepth => 32
  | .biInodes32bit | .biCasefold => 8

-- The width of the member u##_bits declares: typedef u64 u96.
def BchInodeField.typeBits (f : BchInodeField) : Nat := min f.bits 64

def bchInodeFieldsV3 : List BchInodeField :=
  [.biAtime,.biCtime,.biMtime,.biOtime,.biUid,.biGid,.biNlink,.biGeneration,.biDev,.biDataChecksum,.biCompression,
   .biProject,.biBackgroundCompression,.biDataReplicas,.biPromoteTarget,.biForegroundTarget,.biBackgroundTarget,
   .biErasureCode,.biFieldsSet,.biDir,.biDirOffset,.biSubvol,.biParentSubvol,.biNocow,.biDepth,.biInodes32bit,
   .biCasefold]

-- The members BCH_INODE_FIELDS_v3() declares in struct bch_inode_unpacked, each within
-- its C type.
structure InodeFields where
  get : BchInodeField → UInt64
  fits : ∀ f, (get f).toNat < 2 ^ f.typeBits

theorem truncate_fits (f : BchInodeField) (x : UInt64) : (x.toNat % 2 ^ f.typeBits).toUInt64.toNat < 2 ^ f.typeBits := by
  have width : f.typeBits ≤ 64 := Nat.min_le_right _ _
  have below : x.toNat % 2 ^ f.typeBits < 2 ^ f.typeBits := Nat.mod_lt _ (Nat.two_pow_pos _)
  have room : 2 ^ f.typeBits ≤ 2 ^ 64 := Nat.pow_le_pow_right (by decide) width
  rw [toNat_toUInt64_of_lt (by omega)]
  exact below

-- unpacked->_name = v: the store truncates v to the member's type.
def InodeFields.set (fields : InodeFields) (f : BchInodeField) (x : UInt64) : InodeFields :=
  ⟨Function.update fields.get f (x.toNat % 2 ^ f.typeBits).toUInt64,fun g => by
    by_cases same : g = f
    · subst same
      rw [Function.update_self]
      exact truncate_fits g x
    · rw [Function.update_of_ne same]
      exact fields.fits g⟩

def InodeFields.zero : InodeFields := ⟨fun _ => 0,fun _ => Nat.two_pow_pos _⟩

-- struct bch_inode_unpacked. bi_hash_seed is an __le64 copied as it is; it is kept as
-- the number its bytes spell little-endian.
structure BchInodeUnpacked where
  biInum : UInt64
  biSnapshot : UInt32
  biJournalSeq : UInt64
  biHashSeed : UInt64
  biSize : UInt64
  biSectors : UInt64
  biVersion : UInt64
  biFlags : UInt32
  biMode : UInt16
  fields : InodeFields

def KEY_TYPE_inode_v3 : UInt8 := 29

-- struct bkey_i_inode_v3: the key, and the bytes of its value (struct bch_inode_v3:
-- six __le64, then the packed fields), bkey_val_u64s(k) words of them.
structure BkeyIInodeV3 where
  k : Bkey
  v : List UInt8

-- The bit fields of bch_inode_v3.bi_flags.
def INODEv3_NR_FIELDS (flags : UInt64) : UInt64 := Bitfield.get flags 24 31
def SET_INODEv3_NR_FIELDS (flags x : UInt64) : UInt64 := Bitfield.set flags 24 31 x
def INODEv3_FIELDS_START (flags : UInt64) : UInt64 := Bitfield.get flags 31 36
def SET_INODEv3_FIELDS_START (flags x : UInt64) : UInt64 := Bitfield.set flags 31 36 x
def INODEv3_MODE (flags : UInt64) : UInt64 := Bitfield.get flags 36 52
def SET_INODEv3_MODE (flags x : UInt64) : UInt64 := Bitfield.set flags 36 52 x

-- offsetof(struct bch_inode_v3, fields) / sizeof(u64)
def INODEv3_FIELDS_START_CUR : UInt64 := 6

section Pack

-- The field loop of bch2_inode_pack_inlined: the bytes from k->v.fields up to out,
-- last_nonzero_field (as a length), nr_fields and last_nonzero_fieldnr.
structure InodePackState where
  out : List UInt8
  lastNonzeroField : Nat
  nrFields : Nat
  lastNonzeroFieldnr : Nat

-- One expansion of the x-macro. Each store lands at out and nothing below out is
-- written again, so the bytes below out are the list. The bytes of the eight-byte
-- varint store past its length are stored over by the next field, or lie past the
-- value's end, where the trimming and memset_u64s_tail reach them.
def inodePackField (inode : BchInodeUnpacked) (s : InodePackState) (f : BchInodeField) : InodePackState :=
  let nrFields := s.nrFields + 1
  let x := inode.fields.get f
  if x ≠ 0 then
    let out := s.out ++ (bch2VarintEncodeFast x).1.take (bch2VarintEncodeFast x).2
    let out := if f.bits > 64 then out ++ [0] else out
    ⟨out,out.length,nrFields,nrFields⟩
  else
    let out := s.out ++ [0]
    let out := if f.bits > 64 then out ++ [0] else out
    ⟨out,s.lastNonzeroField,nrFields,s.lastNonzeroFieldnr⟩

-- The six __le64 of struct bch_inode_v3 ahead of its fields.
def inodeV3Header (journalSeq hashSeed flags sectors size version : UInt64) : List UInt8 :=
  leBytes 8 journalSeq.toNat ++ leBytes 8 hashSeed.toNat ++ leBytes 8 flags.toNat ++ leBytes 8 sectors.toNat ++
    leBytes 8 size.toNat ++ leBytes 8 version.toNat

-- bch2_inode_pack. The key starts as bkey_inode_v3_init leaves it; set_bkey_val_bytes
-- then sizes it to the trimmed fields, and memset_u64s_tail zeroes the last word's tail.
def bch2InodePack (inode : BchInodeUnpacked) : BkeyIInodeV3 :=
  let flags := SET_INODEv3_MODE inode.biFlags.toUInt64 inode.biMode.toUInt64
  let flags := SET_INODEv3_FIELDS_START flags INODEv3_FIELDS_START_CUR
  let s := bchInodeFieldsV3.foldl (inodePackField inode) ⟨[],0,0,0⟩
  let bytes := 48 + s.lastNonzeroField
  let valU64s := (bytes + 8 - 1) / 8
  let flags := SET_INODEv3_NR_FIELDS flags s.lastNonzeroFieldnr.toUInt64
  ⟨{u64s := BKEY_U64s + valU64s.toUInt8,format := KEY_FORMAT_CURRENT,needsWhiteout := false,type := KEY_TYPE_inode_v3,
     pad := 0,bversion := ⟨0,0⟩,size := 0,p := ⟨0,inode.biInum,0⟩},
   inodeV3Header inode.biJournalSeq inode.biHashSeed flags inode.biSectors inode.biSize inode.biVersion ++
     s.out.take s.lastNonzeroField ++ List.replicate (valU64s * 8 - bytes) 0⟩

end Pack

section Unpack

inductive InodeUnpackErr where
  -- -BCH_ERR_varint_decode_error from bch2_varint_decode_fast
  | varintDecodeError
  -- -BCH_ERR_inode_unpack_error
  | inodeUnpackError
  deriving DecidableEq, Repr

def varintDecodeFast (v : List UInt8) (inp bufEnd : Nat) : Except InodeUnpackErr (UInt64 × Nat) :=
  match bch2VarintDecodeFast v inp bufEnd with
  | some decoded => .ok decoded
  | none => .error .varintDecodeError

-- v[0], v[1] and the new in of one field: decoded while fieldnr < nr_fields, zero after.
def inodeFieldValues (v : List UInt8) (bufEnd nrFields : Nat) (f : BchInodeField) (inp fieldnr : Nat) :
    Except InodeUnpackErr (UInt64 × UInt64 × Nat) :=
  if fieldnr < nrFields then
    (varintDecodeFast v inp bufEnd).bind fun first =>
      if f.bits > 64 then (varintDecodeFast v (inp + first.2) bufEnd).map fun second => (first.1,second.1,inp + first.2 + second.2)
      else .ok (first.1,0,inp + first.2)
  else .ok (0,0,inp)

-- One expansion of the x-macro in bch2_inode_unpack_v3, on in, fieldnr and the members.
def inodeUnpackField (v : List UInt8) (bufEnd nrFields : Nat) (st : Nat × Nat × InodeFields) (f : BchInodeField) :
    Except InodeUnpackErr (Nat × Nat × InodeFields) :=
  (inodeFieldValues v bufEnd nrFields f st.1 st.2.1).bind fun values =>
    let fields := st.2.2.set f values.1
    if values.2.1 ≠ 0 ∨ values.1 ≠ fields.get f then .error .inodeUnpackError
    else .ok (values.2.2,st.2.1 + 1,fields)

-- bch2_inode_unpack_v3; in starts at inode.v->fields, 48 bytes into the value, and end
-- is bkey_val_end.
def bch2InodeUnpackV3 (k : BkeyIInodeV3) : Except InodeUnpackErr BchInodeUnpacked :=
  let bufEnd := (k.k.u64s - BKEY_U64s).toNat * 8
  let flags := (loadLE k.v 16 8).toUInt64
  let nrFields := (INODEv3_NR_FIELDS flags).toNat
  (bchInodeFieldsV3.foldlM (inodeUnpackField k.v bufEnd nrFields) (48,0,InodeFields.zero)).map fun st =>
    {biInum := k.k.p.offset,biSnapshot := k.k.p.snapshot,biJournalSeq := (loadLE k.v 0 8).toUInt64,
     biHashSeed := (loadLE k.v 8 8).toUInt64,biSize := (loadLE k.v 32 8).toUInt64,
     biSectors := (loadLE k.v 24 8).toUInt64,biVersion := (loadLE k.v 40 8).toUInt64,biFlags := flags.toUInt32,
     biMode := (INODEv3_MODE flags).toUInt16,fields := st.2.2}

-- bch2_inode_unpack: inode_v3 keys take bch2_inode_unpack_v3. The slow path, for the
-- older inode and inode_v2 layouts, is not modelled: none stands for it.
def bch2InodeUnpack (k : BkeyIInodeV3) : Option (Except InodeUnpackErr BchInodeUnpacked) :=
  if k.k.type = KEY_TYPE_inode_v3 then some (bch2InodeUnpackV3 k) else none

end Unpack

section Fields

theorem InodeFields.get_set_of_fits (fields : InodeFields) {f : BchInodeField} {x : UInt64}
    (fits : x.toNat < 2 ^ f.typeBits) : (fields.set f x).get f = x := by
  have width : f.typeBits ≤ 64 := Nat.min_le_right _ _
  have room : 2 ^ f.typeBits ≤ 2 ^ 64 := Nat.pow_le_pow_right (by decide) width
  simp only [InodeFields.set,Function.update_self]
  apply UInt64.toNat_inj.mp
  rw [toNat_toUInt64_of_lt (by omega),Nat.mod_eq_of_lt fits]

theorem InodeFields.get_set_of_ne (fields : InodeFields) {f g : BchInodeField} (x : UInt64) (other : g ≠ f) :
    (fields.set f x).get g = fields.get g := by
  simp only [InodeFields.set,Function.update_of_ne other]

theorem mem_bchInodeFieldsV3 (f : BchInodeField) : f ∈ bchInodeFieldsV3 := by
  cases f <;> decide

-- The bytes the pack loop stores for one field: its varint, then for a 96-bit field
-- the zero byte of its high half.
def inodeFieldBytes (fields : InodeFields) (f : BchInodeField) : List UInt8 :=
  (bch2VarintEncodeFast (fields.get f)).1.take (bch2VarintEncodeFast (fields.get f)).2 ++ if f.bits > 64 then [0] else []

theorem encodeFast_zero : (bch2VarintEncodeFast 0).1.take (bch2VarintEncodeFast 0).2 = [0] := by
  decide

theorem length_take_encodeFast (v : UInt64) :
    ((bch2VarintEncodeFast v).1.take (bch2VarintEncodeFast v).2).length = (bch2VarintEncodeFast v).2 := by
  rcases encodeFast_cases v with ⟨short,enc⟩ | ⟨-,enc⟩
  · rw [enc,List.length_take,length_leBytes]
    exact Nat.min_eq_left (by omega)
  · rw [enc]
    simp [length_leBytes]

theorem encodeFast_le (v : UInt64) : (bch2VarintEncodeFast v).2 ≤ 9 := by
  rcases encodeFast_cases v with ⟨short,enc⟩ | ⟨-,enc⟩
  · rw [enc]
    omega
  · rw [enc]

theorem length_inodeFieldBytes (fields : InodeFields) (f : BchInodeField) : (inodeFieldBytes fields f).length ≤ 10 := by
  have := encodeFast_le (fields.get f)
  rw [inodeFieldBytes,List.length_append,length_take_encodeFast]
  split <;> simp <;> omega

theorem length_flatMap_inodeFieldBytes (fields : InodeFields) (fs : List BchInodeField) :
    (fs.flatMap (inodeFieldBytes fields)).length ≤ 10 * fs.length := by
  induction fs with
  | nil => simp
  | cons f rest ih =>
    have := length_inodeFieldBytes fields f
    simp only [List.flatMap_cons,List.length_append,List.length_cons]
    omega

end Fields

section PackLoop

-- What the pack loop has done after the fields done: out holds their bytes, the
-- trimming point sits after the last nonzero one, and every field after it is zero.
structure PackInv (fields : InodeFields) (done : List BchInodeField) (s : InodePackState) : Prop where
  out : s.out = done.flatMap (inodeFieldBytes fields)
  nrFields : s.nrFields = done.length
  nrLe : s.lastNonzeroFieldnr ≤ done.length
  trim : s.lastNonzeroField = ((done.take s.lastNonzeroFieldnr).flatMap (inodeFieldBytes fields)).length
  zeros : ∀ f ∈ done.drop s.lastNonzeroFieldnr, fields.get f = 0

theorem packInv_step (inode : BchInodeUnpacked) {done : List BchInodeField} {s : InodePackState}
    (inv : PackInv inode.fields done s) (f : BchInodeField) :
    PackInv inode.fields (done ++ [f]) (inodePackField inode s f) := by
  have bytes : (done ++ [f]).flatMap (inodeFieldBytes inode.fields) = s.out ++ inodeFieldBytes inode.fields f := by
    rw [List.flatMap_append,inv.out,List.flatMap_singleton]
  unfold inodePackField
  dsimp only
  by_cases zero : inode.fields.get f = 0
  · -- A zero field stores one zero byte per half and leaves the trimming point.
    have stored : inodeFieldBytes inode.fields f = [0] ++ if f.bits > 64 then [0] else [] := by
      rw [inodeFieldBytes,zero,encodeFast_zero]
    rw [if_neg (by simpa using zero)]
    refine ⟨?_,by simp [inv.nrFields],by simp; have := inv.nrLe; omega,?_,?_⟩
    · rw [bytes,stored]
      split <;> simp
    · rw [List.take_append_of_le_length inv.nrLe]
      exact inv.trim
    · intro g mem
      rw [List.drop_append_of_le_length inv.nrLe,List.mem_append,List.mem_singleton] at mem
      rcases mem with before | rfl
      · exact inv.zeros g before
      · exact zero
  · -- A nonzero field moves the trimming point past its bytes.
    rw [if_pos zero]
    have stored : (if f.bits > 64 then s.out ++ (bch2VarintEncodeFast (inode.fields.get f)).1.take
        (bch2VarintEncodeFast (inode.fields.get f)).2 ++ [0] else s.out ++ (bch2VarintEncodeFast (inode.fields.get f)).1.take
        (bch2VarintEncodeFast (inode.fields.get f)).2) = (done ++ [f]).flatMap (inodeFieldBytes inode.fields) := by
      rw [bytes,inodeFieldBytes]
      split <;> simp
    refine ⟨stored,by simp [inv.nrFields],by simp [inv.nrFields],?_,?_⟩
    · simp only [inv.nrFields]
      rw [show done.length + 1 = (done ++ [f]).length by simp,List.take_length,stored]
    · simp [inv.nrFields]

theorem packInv_run (inode : BchInodeUnpacked) (fs : List BchInodeField) :
    ∀ (done : List BchInodeField) (s : InodePackState), PackInv inode.fields done s →
      PackInv inode.fields (done ++ fs) (fs.foldl (inodePackField inode) s) := by
  induction fs with
  | nil => simp
  | cons f rest ih =>
    intro done s inv
    rw [List.foldl_cons,show done ++ f :: rest = (done ++ [f]) ++ rest by simp]
    exact ih _ _ (packInv_step inode inv f)

theorem packInv_fields (inode : BchInodeUnpacked) :
    PackInv inode.fields bchInodeFieldsV3 (bchInodeFieldsV3.foldl (inodePackField inode) ⟨[],0,0,0⟩) :=
  packInv_run inode bchInodeFieldsV3 [] _ ⟨rfl,rfl,by simp,rfl,by simp⟩

theorem PackInv.trimmed {fields : InodeFields} {done : List BchInodeField} {s : InodePackState}
    (inv : PackInv fields done s) :
    s.out.take s.lastNonzeroField = (done.take s.lastNonzeroFieldnr).flatMap (inodeFieldBytes fields) := by
  have split : done.flatMap (inodeFieldBytes fields) = (done.take s.lastNonzeroFieldnr).flatMap (inodeFieldBytes fields) ++
      (done.drop s.lastNonzeroFieldnr).flatMap (inodeFieldBytes fields) := by
    rw [← List.flatMap_append,List.take_append_drop]
  rw [inv.out,split]
  exact List.take_left' inv.trim.symm

end PackLoop

section UnpackLoop

theorem varintDecodeFast_encodeFast (v : UInt64) {mem pre post : List UInt8} {bufEnd : Nat}
    (layout : mem = pre ++ (bch2VarintEncodeFast v).1.take (bch2VarintEncodeFast v).2 ++ post)
    (room : pre.length + (bch2VarintEncodeFast v).2 ≤ bufEnd) :
    varintDecodeFast mem pre.length bufEnd = .ok (v,(bch2VarintEncodeFast v).2) := by
  rw [varintDecodeFast,layout,bch2VarintDecodeFast_encodeFast v pre post room]

theorem encodeFast_zero_length : (bch2VarintEncodeFast 0).2 = 1 := by
  decide

theorem inodeFieldValues_of_bytes (x : InodeFields) (f : BchInodeField) {v pre post : List UInt8}
    {bufEnd nrFields fieldnr : Nat} (layout : v = pre ++ inodeFieldBytes x f ++ post)
    (room : pre.length + (inodeFieldBytes x f).length ≤ bufEnd) (decodes : fieldnr < nrFields) :
    inodeFieldValues v bufEnd nrFields f pre.length fieldnr = .ok (x.get f,0,pre.length + (inodeFieldBytes x f).length) := by
  have firstLength := length_take_encodeFast (x.get f)
  have layout' : v = pre ++ (bch2VarintEncodeFast (x.get f)).1.take (bch2VarintEncodeFast (x.get f)).2 ++
      ((if f.bits > 64 then [0] else []) ++ post) := by
    rw [layout,inodeFieldBytes]
    simp only [List.append_assoc]
  have fieldLength : (inodeFieldBytes x f).length = (bch2VarintEncodeFast (x.get f)).2 + if f.bits > 64 then 1 else 0 := by
    rw [inodeFieldBytes,List.length_append,firstLength]
    split <;> rfl
  have firstRoom : pre.length + (bch2VarintEncodeFast (x.get f)).2 ≤ bufEnd := by
    rw [fieldLength] at room
    omega
  have first := varintDecodeFast_encodeFast (x.get f) layout' firstRoom
  unfold inodeFieldValues
  rw [if_pos decodes,first]
  by_cases big : f.bits > 64
  · -- The high half is the one zero byte after the value's varint.
    have layoutHigh : v = (pre ++ (bch2VarintEncodeFast (x.get f)).1.take (bch2VarintEncodeFast (x.get f)).2) ++
        (bch2VarintEncodeFast 0).1.take (bch2VarintEncodeFast 0).2 ++ post := by
      rw [layout',if_pos big,encodeFast_zero]
      simp only [List.append_assoc]
    have preLength : (pre ++ (bch2VarintEncodeFast (x.get f)).1.take (bch2VarintEncodeFast (x.get f)).2).length =
        pre.length + (bch2VarintEncodeFast (x.get f)).2 := by
      rw [List.length_append,firstLength]
    have secondRoom : (pre ++ (bch2VarintEncodeFast (x.get f)).1.take (bch2VarintEncodeFast (x.get f)).2).length +
        (bch2VarintEncodeFast 0).2 ≤ bufEnd := by
      rw [preLength,encodeFast_zero_length]
      rw [fieldLength,if_pos big] at room
      exact room
    have second := varintDecodeFast_encodeFast 0 layoutHigh secondRoom
    rw [preLength] at second
    simp only [Except.bind,if_pos big,second,Except.map,encodeFast_zero_length,fieldLength,Nat.add_assoc]
  · simp only [Except.bind,if_neg big,fieldLength]
    rfl

theorem inodeUnpackField_of_bytes (x : InodeFields) (f : BchInodeField) {v pre post : List UInt8}
    {bufEnd nrFields fieldnr : Nat} (fields : InodeFields) (layout : v = pre ++ inodeFieldBytes x f ++ post)
    (room : pre.length + (inodeFieldBytes x f).length ≤ bufEnd) (decodes : fieldnr < nrFields) :
    inodeUnpackField v bufEnd nrFields (pre.length,fieldnr,fields) f =
      .ok (pre.length + (inodeFieldBytes x f).length,fieldnr + 1,fields.set f (x.get f)) := by
  unfold inodeUnpackField
  rw [inodeFieldValues_of_bytes x f layout room decodes]
  simp only [Except.bind,InodeFields.get_set_of_fits fields (x.fits f),ne_eq,not_true_eq_false,or_false,if_false]

theorem zero_fits_field (f : BchInodeField) : (0 : UInt64).toNat < 2 ^ f.typeBits := Nat.two_pow_pos _

theorem inodeUnpackField_past {v : List UInt8} {bufEnd nrFields fieldnr : Nat} (inp : Nat) (fields : InodeFields)
    (f : BchInodeField) (past : ¬fieldnr < nrFields) :
    inodeUnpackField v bufEnd nrFields (inp,fieldnr,fields) f = .ok (inp,fieldnr + 1,fields.set f 0) := by
  unfold inodeUnpackField inodeFieldValues
  rw [if_neg past]
  simp only [Except.bind,InodeFields.get_set_of_fits fields (zero_fits_field f),ne_eq,not_true_eq_false,or_false,if_false]

theorem unpackFields_run (x : InodeFields) (v : List UInt8) (bufEnd nrFields : Nat) (fs : List BchInodeField) :
    ∀ (pre post : List UInt8) (fieldnr : Nat) (fields : InodeFields),
    v = pre ++ (fs.take (nrFields - fieldnr)).flatMap (inodeFieldBytes x) ++ post →
    pre.length + ((fs.take (nrFields - fieldnr)).flatMap (inodeFieldBytes x)).length ≤ bufEnd →
    (∀ f ∈ fs.drop (nrFields - fieldnr), x.get f = 0) →
    ∃ inp fields', fs.foldlM (inodeUnpackField v bufEnd nrFields) (pre.length,fieldnr,fields) =
        .ok (inp,fieldnr + fs.length,fields') ∧
      (∀ g ∈ fs, fields'.get g = x.get g) ∧ ∀ g, g ∉ fs → fields'.get g = fields.get g := by
  induction fs with
  | nil =>
    intro pre post fieldnr fields _ _ _
    exact ⟨pre.length,fields,rfl,by simp,fun _ _ => rfl⟩
  | cons f rest ih =>
    intro pre post fieldnr fields layout room zeros
    -- Either the field is stored (fieldnr < nr_fields) or the loop is past the stored ones.
    by_cases decodes : fieldnr < nrFields
    · obtain ⟨k,hk⟩ : ∃ k, nrFields - fieldnr = k + 1 := ⟨nrFields - fieldnr - 1,by omega⟩
      have next : nrFields - (fieldnr + 1) = k := by omega
      rw [hk,List.take_succ_cons,List.flatMap_cons] at layout room
      rw [hk,List.drop_succ_cons] at zeros
      have layoutHead : v = pre ++ inodeFieldBytes x f ++ ((rest.take k).flatMap (inodeFieldBytes x) ++ post) := by
        rw [layout]
        simp only [List.append_assoc]
      have headRoom : pre.length + (inodeFieldBytes x f).length ≤ bufEnd := by
        simp only [List.length_append] at room
        omega
      have step := inodeUnpackField_of_bytes x f fields layoutHead headRoom decodes
      have layoutRest : v = (pre ++ inodeFieldBytes x f) ++ (rest.take (nrFields - (fieldnr + 1))).flatMap (inodeFieldBytes x) ++ post := by
        rw [layout,next]
        simp only [List.append_assoc]
      have restRoom : (pre ++ inodeFieldBytes x f).length +
          ((rest.take (nrFields - (fieldnr + 1))).flatMap (inodeFieldBytes x)).length ≤ bufEnd := by
        rw [next]
        simp only [List.length_append] at room ⊢
        omega
      obtain ⟨inp,fields',run,stored,frame⟩ := ih (pre ++ inodeFieldBytes x f) post (fieldnr + 1) (fields.set f (x.get f))
        layoutRest restRoom (by rw [next]; exact zeros)
      rw [List.length_append] at run
      refine ⟨inp,fields',?_,?_,?_⟩
      · rw [List.foldlM_cons,step,List.length_cons,show fieldnr + (rest.length + 1) = fieldnr + 1 + rest.length by omega]
        exact run
      · intro g mem
        by_cases later : g ∈ rest
        · exact stored g later
        · have same : g = f := by simpa [later] using mem
          subst same
          rw [frame g later,InodeFields.get_set_of_fits fields (x.fits g)]
      · intro g absent
        rw [frame g (fun mem => absent (List.mem_cons_of_mem f mem)),
          InodeFields.get_set_of_ne fields _ (fun same => absent (by rw [same]; exact List.mem_cons_self))]
    · have none : nrFields - fieldnr = 0 := by omega
      rw [none,List.take_zero] at layout room
      rw [none,List.drop_zero] at zeros
      have zero := zeros f List.mem_cons_self
      obtain ⟨inp,fields',run,stored,frame⟩ := ih pre post (fieldnr + 1) (fields.set f 0)
        (by rw [show nrFields - (fieldnr + 1) = 0 by omega,List.take_zero]; exact layout)
        (by rw [show nrFields - (fieldnr + 1) = 0 by omega,List.take_zero]; exact room)
        (by rw [show nrFields - (fieldnr + 1) = 0 by omega,List.drop_zero]; exact fun g mem => zeros g (List.mem_cons_of_mem f mem))
      refine ⟨inp,fields',?_,?_,?_⟩
      · rw [List.foldlM_cons,inodeUnpackField_past pre.length fields f decodes,List.length_cons,
          show fieldnr + (rest.length + 1) = fieldnr + 1 + rest.length by omega]
        exact run
      · intro g mem
        by_cases later : g ∈ rest
        · exact stored g later
        · have same : g = f := by simpa [later] using mem
          subst same
          rw [frame g later,InodeFields.get_set_of_fits fields (zero_fits_field g),zero]
      · intro g absent
        rw [frame g (fun mem => absent (List.mem_cons_of_mem f mem)),
          InodeFields.get_set_of_ne fields _ (fun same => absent (by rw [same]; exact List.mem_cons_self))]

end UnpackLoop

section Flags

-- bi_flags as bch2_inode_pack leaves it, bit by bit: the low 24 bits of the inode's
-- flags, then nr_fields, INODEv3_FIELDS_START_CUR and the mode.
theorem testBit_packedFlags (flags : UInt32) (mode : UInt16) (nr : UInt64) (i : Nat) :
    (SET_INODEv3_NR_FIELDS (SET_INODEv3_FIELDS_START (SET_INODEv3_MODE flags.toUInt64 mode.toUInt64)
      INODEv3_FIELDS_START_CUR) nr).toNat.testBit i =
    if i < 24 then flags.toNat.testBit i
    else if i < 31 then nr.toNat.testBit (i - 24)
    else if i < 36 then (6 : Nat).testBit (i - 31)
    else mode.toNat.testBit (i - 36) := by
  -- Past bit 52 both sides are zero: the flags are 32 bits wide and the mode 16.
  have flagsHigh : ∀ j, 32 ≤ j → flags.toNat.testBit j = false := fun j le =>
    Nat.testBit_lt_two_pow (Nat.lt_of_lt_of_le flags.toNat_lt (Nat.pow_le_pow_right (by decide) le))
  have modeHigh : ∀ j, 16 ≤ j → mode.toNat.testBit j = false := fun j le =>
    Nat.testBit_lt_two_pow (Nat.lt_of_lt_of_le mode.toNat_lt (Nat.pow_le_pow_right (by decide) le))
  unfold SET_INODEv3_NR_FIELDS SET_INODEv3_FIELDS_START SET_INODEv3_MODE
  rw [Bitfield.testBit_set _ _ (by decide) (by decide) (by decide),Bitfield.testBit_set _ _ (by decide) (by decide) (by decide),
    Bitfield.testBit_set _ _ (by decide) (by decide) (by decide),UInt32.toNat_toUInt64,UInt16.toNat_toUInt64]
  by_cases low : i < 24
  · simp [low,show ¬(24 ≤ i ∧ i < 31) by omega,show ¬(31 ≤ i ∧ i < 36) by omega,show ¬(36 ≤ i ∧ i < 52) by omega]
  · by_cases nrBits : i < 31
    · simp [low,nrBits,show 24 ≤ i by omega]
    · by_cases startBits : i < 36
      · simp [low,nrBits,startBits,show 31 ≤ i by omega,INODEv3_FIELDS_START_CUR]
      · by_cases modeBits : i < 52
        · simp [low,nrBits,startBits,modeBits,show 36 ≤ i by omega]
        · simp [low,nrBits,startBits,modeBits,flagsHigh i (by omega),modeHigh (i - 36) (by omega)]

theorem nrFields_packedFlags (flags : UInt32) (mode : UInt16) {nr : Nat} (small : nr < 128) :
    (INODEv3_NR_FIELDS (SET_INODEv3_NR_FIELDS (SET_INODEv3_FIELDS_START (SET_INODEv3_MODE flags.toUInt64 mode.toUInt64)
      INODEv3_FIELDS_START_CUR) nr.toUInt64)).toNat = nr := by
  have toNat : nr.toUInt64.toNat = nr := toNat_toUInt64_of_lt (by omega)
  apply Nat.eq_of_testBit_eq
  intro i
  unfold INODEv3_NR_FIELDS
  rw [Bitfield.testBit_get _ (by decide) (by decide),testBit_packedFlags,toNat]
  by_cases inside : i < 7
  · simp [inside,show ¬24 + i < 24 by omega,show 24 + i < 31 by omega]
  · simp only [inside,decide_false,Bool.false_and]
    exact (Nat.testBit_lt_two_pow (Nat.lt_of_lt_of_le small (Nat.pow_le_pow_right (by decide : 2 > 0) (by omega : 7 ≤ i)))).symm

theorem mode_packedFlags (flags : UInt32) (mode : UInt16) (nr : UInt64) :
    (INODEv3_MODE (SET_INODEv3_NR_FIELDS (SET_INODEv3_FIELDS_START (SET_INODEv3_MODE flags.toUInt64 mode.toUInt64)
      INODEv3_FIELDS_START_CUR) nr)).toUInt16 = mode := by
  have bits : (INODEv3_MODE (SET_INODEv3_NR_FIELDS (SET_INODEv3_FIELDS_START (SET_INODEv3_MODE flags.toUInt64 mode.toUInt64)
      INODEv3_FIELDS_START_CUR) nr)).toNat = mode.toNat := by
    apply Nat.eq_of_testBit_eq
    intro i
    unfold INODEv3_MODE
    rw [Bitfield.testBit_get _ (by decide) (by decide),testBit_packedFlags]
    by_cases inside : i < 16
    · simp [inside,show ¬36 + i < 24 by omega,show ¬36 + i < 31 by omega,show ¬36 + i < 36 by omega]
    · simp only [inside,decide_false,Bool.false_and]
      exact (Nat.testBit_lt_two_pow (Nat.lt_of_lt_of_le mode.toNat_lt (Nat.pow_le_pow_right (by decide : 2 > 0) (by omega : 16 ≤ i)))).symm
  apply UInt16.toNat_inj.mp
  rw [UInt64.toNat_toUInt16,bits,Nat.mod_eq_of_lt mode.toNat_lt]

theorem low_packedFlags (flags : UInt32) (mode : UInt16) (nr : UInt64) :
    (SET_INODEv3_NR_FIELDS (SET_INODEv3_FIELDS_START (SET_INODEv3_MODE flags.toUInt64 mode.toUInt64)
      INODEv3_FIELDS_START_CUR) nr).toUInt32.toNat % 2 ^ 24 = flags.toNat % 2 ^ 24 := by
  rw [UInt64.toNat_toUInt32,Nat.mod_mod_of_dvd _ (by decide)]
  apply Nat.eq_of_testBit_eq
  intro i
  rw [Nat.testBit_mod_two_pow,Nat.testBit_mod_two_pow,testBit_packedFlags]
  by_cases low : i < 24 <;> simp [low]

theorem packedFlags_congr {a b : UInt32} (mode : UInt16) (nr : UInt64) (low : a.toNat % 2 ^ 24 = b.toNat % 2 ^ 24) :
    SET_INODEv3_NR_FIELDS (SET_INODEv3_FIELDS_START (SET_INODEv3_MODE a.toUInt64 mode.toUInt64) INODEv3_FIELDS_START_CUR) nr =
      SET_INODEv3_NR_FIELDS (SET_INODEv3_FIELDS_START (SET_INODEv3_MODE b.toUInt64 mode.toUInt64) INODEv3_FIELDS_START_CUR) nr := by
  apply UInt64.toNat_inj.mp
  apply Nat.eq_of_testBit_eq
  intro i
  rw [testBit_packedFlags,testBit_packedFlags]
  by_cases below : i < 24
  · have bit := congrArg (Nat.testBit · i) low
    rw [Nat.testBit_mod_two_pow,Nat.testBit_mod_two_pow] at bit
    simpa [below] using bit
  · simp [below]

end Flags

section Roundtrip

theorem loadLE_words (ws : List UInt64) (rest : List UInt8) {i : Nat} (inside : i < ws.length) :
    (loadLE (ws.flatMap (fun w => leBytes 8 w.toNat) ++ rest) (8 * i) 8).toUInt64 = ws[i] := by
  induction ws generalizing i with
  | nil => simp at inside
  | cons w more ih =>
    rw [List.flatMap_cons,List.append_assoc]
    cases i with
    | zero =>
      have below : w.toNat < 256 ^ 8 := w.toNat_lt
      rw [show 8 * 0 = ([] : List UInt8).length from rfl,← List.nil_append (leBytes 8 w.toNat ++ _),loadLE_append,
        List.take_append_of_le_length (by simp [length_leBytes]),take_leBytes le_rfl,ofLE_leBytes,Nat.mod_eq_of_lt below]
      exact UInt64.toNat_inj.mp (toNat_toUInt64_of_lt below)
    | succ i =>
      have skip : ∀ l : List UInt8, loadLE (leBytes 8 w.toNat ++ l) (8 * (i + 1)) 8 = loadLE l (8 * i) 8 := by
        intro l
        rw [loadLE,loadLE,show 8 * (i + 1) = (leBytes 8 w.toNat).length + 8 * i by simp [length_leBytes]; ring,
          ← List.drop_drop,List.drop_left]
      rw [skip]
      exact ih (by simp at inside; omega)

theorem inodeV3Header_eq (a b c d e g : UInt64) :
    inodeV3Header a b c d e g = [a,b,c,d,e,g].flatMap (fun w => leBytes 8 w.toNat) := by
  simp [inodeV3Header]

theorem bch2InodePack_spec (inode : BchInodeUnpacked) :
    ∃ s : InodePackState, PackInv inode.fields bchInodeFieldsV3 s ∧ ∃ pad : List UInt8,
      (bch2InodePack inode).v = inodeV3Header inode.biJournalSeq inode.biHashSeed
        (SET_INODEv3_NR_FIELDS (SET_INODEv3_FIELDS_START (SET_INODEv3_MODE inode.biFlags.toUInt64 inode.biMode.toUInt64)
          INODEv3_FIELDS_START_CUR) s.lastNonzeroFieldnr.toUInt64) inode.biSectors inode.biSize inode.biVersion ++
        (bchInodeFieldsV3.take s.lastNonzeroFieldnr).flatMap (inodeFieldBytes inode.fields) ++ pad ∧
      48 + ((bchInodeFieldsV3.take s.lastNonzeroFieldnr).flatMap (inodeFieldBytes inode.fields)).length ≤
        ((bch2InodePack inode).k.u64s - BKEY_U64s).toNat * 8 := by
  have inv := packInv_fields inode
  refine ⟨_,inv,_,by rw [← inv.trimmed]; rfl,?_⟩
  -- At most ten bytes a field: the value stays far below the 255 words of a key.
  have short : (bchInodeFieldsV3.foldl (inodePackField inode) ⟨[],0,0,0⟩).lastNonzeroField ≤ 270 := by
    have bound := length_flatMap_inodeFieldBytes inode.fields
      (bchInodeFieldsV3.take (bchInodeFieldsV3.foldl (inodePackField inode) ⟨[],0,0,0⟩).lastNonzeroFieldnr)
    have count : (bchInodeFieldsV3.take (bchInodeFieldsV3.foldl (inodePackField inode) ⟨[],0,0,0⟩).lastNonzeroFieldnr).length ≤ 27 :=
      Nat.le_trans (List.length_take_le' _ _) (show bchInodeFieldsV3.length ≤ 27 by decide)
    rw [← inv.trim] at bound
    omega
  rw [← inv.trim]
  show _ ≤ (BKEY_U64s + ((48 + (bchInodeFieldsV3.foldl (inodePackField inode) ⟨[],0,0,0⟩).lastNonzeroField + 8 - 1) / 8).toUInt8 -
    BKEY_U64s).toNat * 8
  generalize (bchInodeFieldsV3.foldl (inodePackField inode) ⟨[],0,0,0⟩).lastNonzeroField = n at short ⊢
  have words : (BKEY_U64s + ((48 + n + 8 - 1) / 8).toUInt8 - BKEY_U64s).toNat = (48 + n + 8 - 1) / 8 := by
    rw [add_sub_cancel_left,Nat.toUInt8_eq,UInt8.toNat_ofNat',Nat.mod_eq_of_lt (by omega)]
  rw [words]
  omega

theorem inodePackField_congr {a b : BchInodeUnpacked} (same : a.fields.get = b.fields.get) :
    inodePackField a = inodePackField b := by
  funext s f
  unfold inodePackField
  rw [same]

theorem bch2InodePack_congr {a b : BchInodeUnpacked} (inum : a.biInum = b.biInum) (seq : a.biJournalSeq = b.biJournalSeq)
    (seed : a.biHashSeed = b.biHashSeed) (size : a.biSize = b.biSize) (sectors : a.biSectors = b.biSectors)
    (version : a.biVersion = b.biVersion) (mode : a.biMode = b.biMode) (low : a.biFlags.toNat % 2 ^ 24 = b.biFlags.toNat % 2 ^ 24)
    (same : a.fields.get = b.fields.get) : bch2InodePack a = bch2InodePack b := by
  simp only [bch2InodePack,inodePackField_congr same,inum,seq,seed,size,sectors,version,mode,packedFlags_congr _ _ low]

theorem length_inodeV3Header (a b c d e g : UInt64) : (inodeV3Header a b c d e g).length = 48 := by
  simp [inodeV3Header,length_leBytes]

theorem inode_pack_unpack_roundtrip (u : BchInodeUnpacked) :
    ∃ u', bch2InodeUnpack (bch2InodePack u) = some (.ok u') ∧
      u'.biInum = u.biInum ∧ u'.biJournalSeq = u.biJournalSeq ∧ u'.biHashSeed = u.biHashSeed ∧
      u'.biSize = u.biSize ∧ u'.biSectors = u.biSectors ∧ u'.biVersion = u.biVersion ∧ u'.biMode = u.biMode ∧
      (∀ f, u'.fields.get f = u.fields.get f) ∧ u'.biFlags.toNat % 2 ^ 24 = u.biFlags.toNat % 2 ^ 24 ∧
      (bch2InodePack u').v = (bch2InodePack u).v := by
  obtain ⟨s,inv,pad,value,room⟩ := bch2InodePack_spec u
  have nrSmall : s.lastNonzeroFieldnr < 128 := by
    have := inv.nrLe
    have : bchInodeFieldsV3.length = 27 := rfl
    omega
  -- The six header words read back where the packer stored them.
  have words : ∀ i (inside : i < 6), (loadLE (bch2InodePack u).v (8 * i) 8).toUInt64 =
      [u.biJournalSeq,u.biHashSeed,SET_INODEv3_NR_FIELDS (SET_INODEv3_FIELDS_START (SET_INODEv3_MODE u.biFlags.toUInt64
        u.biMode.toUInt64) INODEv3_FIELDS_START_CUR) s.lastNonzeroFieldnr.toUInt64,u.biSectors,u.biSize,u.biVersion][i] := by
    intro i inside
    rw [value,inodeV3Header_eq,List.append_assoc]
    exact loadLE_words _ _ _
  have nrFields : (INODEv3_NR_FIELDS (loadLE (bch2InodePack u).v 16 8).toUInt64).toNat = s.lastNonzeroFieldnr := by
    rw [show 16 = 8 * 2 from rfl,words 2 (by decide)]
    exact nrFields_packedFlags _ _ nrSmall
  -- The field loop reads back every field, the stored ones and the zero-filled rest.
  obtain ⟨inp,fields',run,stored,-⟩ := unpackFields_run u.fields (bch2InodePack u).v
    (((bch2InodePack u).k.u64s - BKEY_U64s).toNat * 8) s.lastNonzeroFieldnr bchInodeFieldsV3 _ pad 0 InodeFields.zero
    (by rw [Nat.sub_zero]; exact value) (by rw [Nat.sub_zero,length_inodeV3Header]; exact room)
    (by rw [Nat.sub_zero]; exact inv.zeros)
  rw [length_inodeV3Header] at run
  have flagsWord := words 2 (by decide)
  have modeEq : (INODEv3_MODE (loadLE (bch2InodePack u).v 16 8).toUInt64).toUInt16 = u.biMode := by
    rw [show 16 = 8 * 2 from rfl,flagsWord]
    exact mode_packedFlags _ _ _
  have lowEq : (loadLE (bch2InodePack u).v 16 8).toUInt64.toUInt32.toNat % 2 ^ 24 = u.biFlags.toNat % 2 ^ 24 := by
    rw [show 16 = 8 * 2 from rfl,flagsWord]
    exact low_packedFlags _ _ _
  have fieldsEq : ∀ f, fields'.get f = u.fields.get f := fun f => stored f (mem_bchInodeFieldsV3 f)
  refine ⟨{biInum := (bch2InodePack u).k.p.offset,biSnapshot := (bch2InodePack u).k.p.snapshot,
            biJournalSeq := (loadLE (bch2InodePack u).v 0 8).toUInt64,biHashSeed := (loadLE (bch2InodePack u).v 8 8).toUInt64,
            biSize := (loadLE (bch2InodePack u).v 32 8).toUInt64,biSectors := (loadLE (bch2InodePack u).v 24 8).toUInt64,
            biVersion := (loadLE (bch2InodePack u).v 40 8).toUInt64,
            biFlags := (loadLE (bch2InodePack u).v 16 8).toUInt64.toUInt32,
            biMode := (INODEv3_MODE (loadLE (bch2InodePack u).v 16 8).toUInt64).toUInt16,fields := fields'},?_,rfl,
    words 0 (by decide),words 1 (by decide),words 4 (by decide),words 3 (by decide),words 5 (by decide),modeEq,
    fieldsEq,lowEq,?_⟩
  · have v3 : (bch2InodePack u).k.type = KEY_TYPE_inode_v3 := rfl
    unfold bch2InodeUnpack bch2InodeUnpackV3
    rw [if_pos v3]
    dsimp only
    rw [nrFields,run]
    rfl
  · -- Re-packing sees the same fields and the same low flag bits.
    exact congrArg BkeyIInodeV3.v (bch2InodePack_congr rfl (words 0 (by decide)) (words 1 (by decide)) (words 4 (by decide))
      (words 3 (by decide)) (words 5 (by decide)) modeEq lowEq (funext fieldsEq))

end Roundtrip

end Bcachefs
