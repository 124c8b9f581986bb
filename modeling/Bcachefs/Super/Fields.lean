import Bcachefs.Lib.Bytes
import Bcachefs.Lib.Bitfield

namespace Bcachefs

open Bytes

-- offsetof(struct bch_sb, _data): the csum, versions, uuids and label, the counters, flags,
-- features and compat words and the 512-byte layout stand before the first optional field.
def bchSbDataOffset : Nat := 752

def sbVstructBytes (u64s : Nat) : Nat := bchSbDataOffset + 8 * u64s

-- A superblock handle as the field code sees it: the words of sb->sb->_data up to the end of
-- the buffer, le32_to_cpu(sb->sb->u64s), and what bch2_sb_realloc reads of the device and of
-- the layout.
structure BchSbHandle where
  data : List UInt64
  u64s : Nat
  bdevBlockSize : Option Nat
  haveLayout : Bool
  sbMaxSizeBits : Nat
  deriving DecidableEq, Repr

-- sb->buffer_size: the buffer ends where data does (a power of two of at least 1 KiB, so a
-- whole number of words past the header).
def BchSbHandle.bufferSize (sb : BchSbHandle) : Nat := sbVstructBytes sb.data.length

-- struct bch_sb_field's first word: le32 u64s, then le32 type.
def sbFieldU64s (w : UInt64) : Nat := (Bitfield.get w 0 32).toNat

def sbFieldType (w : UInt64) : UInt64 := Bitfield.get w 32 64

def setSbFieldU64s (w : UInt64) (u64s : UInt32) : UInt64 := Bitfield.set w 0 32 u64s.toUInt64

def setSbFieldType (w : UInt64) (type : UInt32) : UInt64 := Bitfield.set w 32 64 type.toUInt64

-- vstruct_for_each(sb, f) if (le32_to_cpu(f->type) == type) return f; with f as a word index.
-- Each step passes one field, so sb->u64s steps reach the end when every field has a word; on a
-- field of zero words, where the C loop never ends, the fuel runs out and nothing is found.
def sbFieldGetIdFrom (data : List UInt64) (last : Nat) (type : UInt32) : Nat → Nat → Option Nat
  | 0,_ => none
  | fuel + 1,pos =>
    if pos < last then
      if sbFieldType (data.getD pos 0) = type.toUInt64 then some pos
      else sbFieldGetIdFrom data last type fuel (pos + sbFieldU64s (data.getD pos 0))
    else none

def bch2SbFieldGetId (sb : BchSbHandle) (type : UInt32) : Option Nat :=
  sbFieldGetIdFrom sb.data sb.u64s type sb.u64s 0

-- The branch of __bch2_sb_field_resize for an existing field f at word p: give it its new size
-- and move the tail behind it, up to vstruct_end(sb->sb) at the old sb->u64s, clearing the gap
-- when the field grows. With no words left the field's own words are the ones moved over.
def sbFieldResizeInPlace (data : List UInt64) (used p oldU64s : Nat) (u64s : UInt32) : Option (List UInt64) := do
  let src := p + oldU64s
  let data := if u64s = 0 then data else data.set p (setSbFieldU64s (data.getD p 0) u64s)
  let dst := if u64s = 0 then p else p + u64s.toNat
  let data ← memmove data dst src (used - src)
  if src < dst then memset data src 0 (dst - src) else some data

-- The branch for a new field at vstruct_last(sb->sb): cleared, with its size and type 0.
def sbFieldAppend (data : List UInt64) (used : Nat) (u64s : UInt32) : Option (List UInt64) := do
  let data ← memset data used 0 u64s.toNat
  some (data.set used (setSbFieldType (setSbFieldU64s (data.getD used 0) u64s) 0))

-- __bch2_sb_field_resize; none is the BUG_ON on a buffer too small for the new size.
def bch2SbFieldResizeRaw (sb : BchSbHandle) (f : Option Nat) (u64s : UInt32) : Option (BchSbHandle × Option Nat) :=
  let oldU64s := match f with
    | some p => sbFieldU64s (sb.data.getD p 0)
    | none => 0
  let sbU64s := sb.u64s + u64s.toNat - oldU64s
  if sb.bufferSize < sbVstructBytes sbU64s then none
  else match f with
    | none =>
      if u64s = 0 then some ({ sb with u64s := sbU64s },none)
      else (sbFieldAppend sb.data sb.u64s u64s).map fun data => ({ sb with data := data,u64s := sbU64s },some sb.u64s)
    | some p =>
      (sbFieldResizeInPlace sb.data sb.u64s p oldU64s u64s).map fun data =>
        ({ sb with data := data,u64s := sbU64s },if u64s = 0 then none else some p)

def bch2SbFieldDelete (sb : BchSbHandle) (type : UInt32) : Option BchSbHandle :=
  match bch2SbFieldGetId sb type with
  | some f => (bch2SbFieldResizeRaw sb (some f) 0).map Prod.fst
  | none => some sb

-- fls_long(l): the number of the highest set bit, counted from 1.
def flsLong (l : Nat) : Nat := if l = 0 then 0 else l.log2 + 1

def roundupPowOfTwo (n : Nat) : Nat := 2 ^ flsLong (n - 1)

inductive SbReallocErr where
  | ENOSPC_sb
  deriving DecidableEq, Repr

-- The size bch2_sb_realloc asks for u64s words of fields: at least a logical block.
def bch2SbReallocBytes (sb : BchSbHandle) (u64s : Nat) : Nat :=
  match sb.bdevBlockSize with
  | some block => max (sbVstructBytes u64s) block
  | none => sbVstructBytes u64s

-- bch2_sb_realloc with sb->sb allocated. krealloc with __GFP_ZERO keeps the old words and
-- clears the new ones; its failure and the fault injection before it are not modelled.
def bch2SbRealloc (sb : BchSbHandle) (u64s : Nat) : Except SbReallocErr BchSbHandle :=
  let newBytes := bch2SbReallocBytes sb u64s
  let newBufferSize := roundupPowOfTwo newBytes
  if newBufferSize ≤ sb.bufferSize then .ok sb
  else if sb.haveLayout ∧ 512 * 2 ^ sb.sbMaxSizeBits < newBytes then .error .ENOSPC_sb
  else .ok { sb with data := sb.data ++ List.replicate ((newBufferSize - bchSbDataOffset) / 8 - sb.data.length) 0 }

-- The part of bch2_sb_field_resize_id after the realloc: the field is looked up again in the
-- new buffer, resized, and given its type.
def sbFieldResizeTyped (sb : BchSbHandle) (type u64s : UInt32) : Option (BchSbHandle × Option Nat) := do
  let (sb,f) ← bch2SbFieldResizeRaw sb (bch2SbFieldGetId sb type) u64s
  match f with
  | some p => some ({ sb with data := sb.data.set p (setSbFieldType (sb.data.getD p 0) type) },some p)
  | none => some (sb,none)

-- le32_to_cpu(f->u64s) of the field bch2_sb_field_get_id finds, 0 for none.
def bch2SbFieldOldU64s (sb : BchSbHandle) (type : UInt32) : Nat :=
  match bch2SbFieldGetId sb type with
  | some f => sbFieldU64s (sb.data.getD f 0)
  | none => 0

-- bch2_sb_field_resize_id for a superblock outside a mounted filesystem (sb->fs_sb unset): a
-- failed realloc returns NULL and leaves the superblock as it was.
def bch2SbFieldResizeId (sb : BchSbHandle) (type u64s : UInt32) : Option (BchSbHandle × Option Nat) :=
  match bch2SbRealloc sb (sb.u64s + u64s.toNat - bch2SbFieldOldU64s sb type) with
  | .error _ => some (sb,none)
  | .ok sb => sbFieldResizeTyped sb type u64s

def bch2SbFieldGetMinsizeId (sb : BchSbHandle) (type u64s : UInt32) : Option (BchSbHandle × Option Nat) :=
  match bch2SbFieldGetId sb type with
  | some f => if sbFieldU64s (sb.data.getD f 0) < u64s.toNat then bch2SbFieldResizeId sb type u64s else some (sb,some f)
  | none => bch2SbFieldResizeId sb type u64s

/-! The fields as records: what the words between sb->start and sb->u64s say. -/

-- A field as the record it is: its type and the words after its header.
structure SbField where
  type : UInt32
  payload : List UInt64
  fits : payload.length + 1 < 2 ^ 32

def SbField.u64s (r : SbField) : Nat := r.payload.length + 1

-- The header word of a field of this type and size.
def sbFieldHeader (type : UInt32) (u64s : Nat) : UInt64 := setSbFieldType (setSbFieldU64s 0 u64s.toUInt32) type

def SbField.words (r : SbField) : List UInt64 := sbFieldHeader r.type r.u64s :: r.payload

def sbFieldsLayout (rs : List SbField) : List UInt64 := rs.flatMap SbField.words

def sbFieldsU64s (rs : List SbField) : Nat := (rs.map SbField.u64s).sum

-- A superblock whose optional fields are rs: their words back to back from sb->start, and
-- sb->u64s their total size.
def BchSbHandle.HasFields (sb : BchSbHandle) (rs : List SbField) : Prop :=
  ∃ rest, sb.data = sbFieldsLayout rs ++ rest ∧ sb.u64s = sbFieldsU64s rs

-- The buffer is already as large as bch2_sb_realloc would make it for u64s words of fields.
def BchSbHandle.HasRoom (sb : BchSbHandle) (u64s : Nat) : Prop :=
  roundupPowOfTwo (bch2SbReallocBytes sb u64s) ≤ sb.bufferSize

-- The words after a header resized to m: the old ones as far as they go, then zeroes.
def resizePayload (payload : List UInt64) (m : Nat) : List UInt64 :=
  payload.take m ++ List.replicate (m - payload.length) 0

theorem length_resizePayload (payload : List UInt64) (m : Nat) : (resizePayload payload m).length = m := by
  simp only [resizePayload,List.length_append,List.length_take,List.length_replicate]
  omega

theorem fits_sub_one (u64s : UInt32) : u64s.toNat - 1 + 1 < 2 ^ 32 := by
  have := UInt32.toNat_lt u64s
  omega

def SbField.resize (r : SbField) (u64s : UInt32) : SbField :=
  ⟨r.type,resizePayload r.payload (u64s.toNat - 1),by rw [length_resizePayload]; exact fits_sub_one u64s⟩

def SbField.fresh (type u64s : UInt32) : SbField :=
  ⟨type,List.replicate (u64s.toNat - 1) 0,by rw [List.length_replicate]; exact fits_sub_one u64s⟩

-- What resizing the field of a type to u64s words makes of the records: the first record of the
-- type resized in place, or dropped at zero words; a new record at the end when there is none.
def sbFieldsResize : List SbField → UInt32 → UInt32 → List SbField
  | [],type,u64s => if u64s = 0 then [] else [SbField.fresh type u64s]
  | r :: rest,type,u64s =>
    if r.type = type then (if u64s = 0 then rest else r.resize u64s :: rest)
    else r :: sbFieldsResize rest type u64s

-- The word index of the first record of a type.
def sbFieldsOffset : List SbField → UInt32 → Option Nat
  | [],_ => none
  | r :: rest,type => if r.type = type then some 0 else (sbFieldsOffset rest type).map (r.u64s + ·)

section Header

theorem toUInt32_toNat (u64s : UInt32) : u64s.toNat.toUInt32 = u64s := by
  rw [Nat.toUInt32_eq,UInt32.ofNat_toNat]

theorem sbFieldU64s_header (type : UInt32) {u64s : Nat} (fits : u64s < 2 ^ 32) :
    sbFieldU64s (sbFieldHeader type u64s) = u64s := by
  unfold sbFieldU64s sbFieldHeader setSbFieldType setSbFieldU64s
  rw [Bitfield.get_set_of_ge _ _ (by decide) (by decide) (by decide) (by decide) (by decide) (by decide),
    Bitfield.toNat_get_set _ _ (by decide) (by decide) (by decide),UInt32.toNat_toUInt64]
  simpa using fits

theorem sbFieldType_header (type : UInt32) (u64s : Nat) : sbFieldType (sbFieldHeader type u64s) = type.toUInt64 := by
  apply UInt64.toNat_inj.mp
  unfold sbFieldType sbFieldHeader setSbFieldType
  rw [Bitfield.toNat_get_set _ _ (by decide) (by decide) (by decide),UInt32.toNat_toUInt64]
  exact Nat.mod_eq_of_lt (UInt32.toNat_lt type)

theorem sbFieldType_header_eq {type type' : UInt32} {u64s : Nat} :
    sbFieldType (sbFieldHeader type u64s) = type'.toUInt64 ↔ type = type' := by
  rw [sbFieldType_header,UInt32.toUInt64_inj]

theorem setSbFieldU64s_header (type u64s : UInt32) (old : Nat) :
    setSbFieldU64s (sbFieldHeader type old) u64s = sbFieldHeader type u64s.toNat := by
  unfold setSbFieldU64s sbFieldHeader setSbFieldType setSbFieldU64s
  rw [← Bitfield.set_comm _ _ _ (by decide) (by decide) (by decide) (by decide) (by decide) (by decide) (by decide),
    Bitfield.set_set _ _ _ (by decide) (by decide) (by decide),toUInt32_toNat]

theorem setSbFieldType_header (type : UInt32) (u64s : Nat) :
    setSbFieldType (sbFieldHeader type u64s) type = sbFieldHeader type u64s := by
  unfold setSbFieldType sbFieldHeader setSbFieldType
  rw [Bitfield.set_set _ _ _ (by decide) (by decide) (by decide)]

theorem setSbFieldType_appended (type u64s : UInt32) :
    setSbFieldType (setSbFieldType (setSbFieldU64s 0 u64s) 0) type = sbFieldHeader type u64s.toNat := by
  unfold setSbFieldType sbFieldHeader setSbFieldType
  rw [Bitfield.set_set _ _ _ (by decide) (by decide) (by decide),toUInt32_toNat]

end Header

section Layout

theorem SbField.u64s_lt (r : SbField) : r.u64s < 2 ^ 32 := r.fits

theorem SbField.length_words (r : SbField) : r.words.length = r.u64s := rfl

@[simp] theorem sbFieldsLayout_nil : sbFieldsLayout [] = [] := rfl

@[simp] theorem sbFieldsLayout_cons (r : SbField) (rs : List SbField) :
    sbFieldsLayout (r :: rs) = r.words ++ sbFieldsLayout rs := List.flatMap_cons

@[simp] theorem sbFieldsLayout_append (rs qs : List SbField) :
    sbFieldsLayout (rs ++ qs) = sbFieldsLayout rs ++ sbFieldsLayout qs := List.flatMap_append

@[simp] theorem sbFieldsU64s_nil : sbFieldsU64s [] = 0 := rfl

@[simp] theorem sbFieldsU64s_cons (r : SbField) (rs : List SbField) :
    sbFieldsU64s (r :: rs) = r.u64s + sbFieldsU64s rs := List.sum_cons

@[simp] theorem sbFieldsU64s_append (rs qs : List SbField) :
    sbFieldsU64s (rs ++ qs) = sbFieldsU64s rs + sbFieldsU64s qs := by
  rw [sbFieldsU64s,List.map_append,List.sum_append]
  rfl

theorem length_sbFieldsLayout (rs : List SbField) : (sbFieldsLayout rs).length = sbFieldsU64s rs := by
  induction rs with
  | nil => rfl
  | cons r rs ih => rw [sbFieldsLayout_cons,List.length_append,ih,SbField.length_words,sbFieldsU64s_cons]

theorem length_le_sbFieldsU64s (rs : List SbField) : rs.length ≤ sbFieldsU64s rs := by
  induction rs with
  | nil => exact le_rfl
  | cons r rs ih =>
    rw [sbFieldsU64s_cons,List.length_cons,SbField.u64s]
    omega

theorem BchSbHandle.HasFields.u64s_le {sb : BchSbHandle} {rs : List SbField} (fields : sb.HasFields rs) :
    sb.u64s ≤ sb.data.length := by
  obtain ⟨rest,data,used⟩ := fields
  rw [data,used,List.length_append,length_sbFieldsLayout]
  omega

theorem BchSbHandle.HasFields.split {sb : BchSbHandle} {before after : List SbField} {r : SbField}
    (fields : sb.HasFields (before ++ r :: after)) :
    ∃ rest, sb.data = sbFieldsLayout before ++ sbFieldHeader r.type r.u64s :: r.payload ++ sbFieldsLayout after ++ rest ∧
      sb.u64s = (sbFieldsLayout before).length + (r.payload.length + 1) + (sbFieldsLayout after).length := by
  obtain ⟨rest,data,used⟩ := fields
  refine ⟨rest,?_,?_⟩
  · rw [data,sbFieldsLayout_append,sbFieldsLayout_cons,SbField.words]
    simp only [List.append_assoc,List.cons_append]
  · rw [used,length_sbFieldsLayout,length_sbFieldsLayout,sbFieldsU64s_append,sbFieldsU64s_cons,SbField.u64s]
    omega

end Layout

section Walk

theorem sbFieldGetIdFrom_layout (type : UInt32) (rest : List UInt64) (rs : List SbField) :
    ∀ (pre : List UInt64) (fuel : Nat), rs.length ≤ fuel →
      sbFieldGetIdFrom (pre ++ sbFieldsLayout rs ++ rest) (pre.length + sbFieldsU64s rs) type fuel pre.length =
        (sbFieldsOffset rs type).map (pre.length + ·) := by
  induction rs with
  | nil =>
    intro pre fuel _
    cases fuel with
    | zero => rfl
    | succ fuel => simp [sbFieldGetIdFrom,sbFieldsOffset]
  | cons r rs ih =>
    intro pre fuel enough
    obtain ⟨fuel,rfl⟩ : ∃ f, fuel = f + 1 := ⟨fuel - 1,by rw [List.length_cons] at enough; omega⟩
    have regroup : pre ++ sbFieldsLayout (r :: rs) ++ rest = (pre ++ r.words) ++ sbFieldsLayout rs ++ rest := by
      simp only [sbFieldsLayout_cons,List.append_assoc]
    have header : (pre ++ sbFieldsLayout (r :: rs) ++ rest).getD pre.length 0 = sbFieldHeader r.type r.u64s := by
      rw [sbFieldsLayout_cons,SbField.words,List.append_assoc,List.cons_append]
      exact getD_append_cons _ _ _ _
    have inside : pre.length < pre.length + sbFieldsU64s (r :: rs) := by
      rw [sbFieldsU64s_cons,SbField.u64s]
      omega
    unfold sbFieldGetIdFrom
    rw [if_pos inside,header,sbFieldsOffset]
    by_cases same : r.type = type
    · rw [if_pos (sbFieldType_header_eq.mpr same),if_pos same]
      rfl
    · rw [if_neg (mt sbFieldType_header_eq.mp same),if_neg same,sbFieldU64s_header _ r.u64s_lt]
      have pos : pre.length + r.u64s = (pre ++ r.words).length := by
        rw [List.length_append,SbField.length_words]
      have last : pre.length + sbFieldsU64s (r :: rs) = (pre ++ r.words).length + sbFieldsU64s rs := by
        rw [sbFieldsU64s_cons,← pos,Nat.add_assoc]
      rw [regroup,pos,last,ih _ fuel (by rw [List.length_cons] at enough; omega),Option.map_map]
      congr 1
      funext x
      simp only [Function.comp,List.length_append,SbField.length_words,Nat.add_assoc]

theorem bch2SbFieldGetId_of_hasFields {sb : BchSbHandle} {rs : List SbField} (fields : sb.HasFields rs) (type : UInt32) :
    bch2SbFieldGetId sb type = sbFieldsOffset rs type := by
  obtain ⟨rest,data,used⟩ := fields
  have walk := sbFieldGetIdFrom_layout type rest rs [] sb.u64s (by rw [used]; exact length_le_sbFieldsU64s rs)
  rw [List.nil_append,List.length_nil,Nat.zero_add,← used,← data] at walk
  rw [bch2SbFieldGetId,walk]
  simp

end Walk

section Records
variable {type u64s : UInt32}

theorem sbFieldsOffset_eq_some {rs : List SbField} {p : Nat} (found : sbFieldsOffset rs type = some p) :
    ∃ before r after, rs = before ++ r :: after ∧ r.type = type ∧ type ∉ before.map SbField.type ∧
      p = sbFieldsU64s before := by
  induction rs generalizing p with
  | nil => cases found
  | cons r rs ih =>
    rw [sbFieldsOffset] at found
    split at found
    · cases found
      exact ⟨[],r,rs,rfl,‹_›,List.not_mem_nil,rfl⟩
    · obtain ⟨q,later,rfl⟩ := Option.map_eq_some_iff.mp found
      obtain ⟨before,r',after,split,is,first,offset⟩ := ih later
      refine ⟨r :: before,r',after,by rw [split,List.cons_append],is,?_,by rw [offset,sbFieldsU64s_cons]⟩
      rw [List.map_cons,List.mem_cons,not_or]
      exact ⟨fun same => ‹¬r.type = type› same.symm,first⟩

theorem sbFieldsOffset_eq_none {rs : List SbField} (absent : sbFieldsOffset rs type = none) :
    type ∉ rs.map SbField.type := by
  induction rs with
  | nil => exact List.not_mem_nil
  | cons r rs ih =>
    rw [sbFieldsOffset] at absent
    split at absent
    · cases absent
    · rw [List.map_cons,List.mem_cons,not_or]
      exact ⟨fun same => ‹¬r.type = type› same.symm,ih (Option.map_eq_none_iff.mp absent)⟩

theorem sbFieldsOffset_split {before after : List SbField} {r : SbField}
    (first : type ∉ before.map SbField.type) (is : r.type = type) :
    sbFieldsOffset (before ++ r :: after) type = some (sbFieldsU64s before) := by
  induction before with
  | nil => rw [List.nil_append,sbFieldsOffset,if_pos is,sbFieldsU64s_nil]
  | cons q before ih =>
    rw [List.map_cons,List.mem_cons,not_or] at first
    rw [List.cons_append,sbFieldsOffset,if_neg (fun same => first.1 same.symm),ih first.2,sbFieldsU64s_cons]
    rfl

theorem sbFieldsOffset_append_fresh {rs : List SbField} (absent : type ∉ rs.map SbField.type) :
    sbFieldsOffset (rs ++ [SbField.fresh type u64s]) type = some (sbFieldsU64s rs) := by
  exact sbFieldsOffset_split (r := SbField.fresh type u64s) absent rfl

theorem sbFieldsResize_split {before after : List SbField} {r : SbField}
    (first : type ∉ before.map SbField.type) (is : r.type = type) :
    sbFieldsResize (before ++ r :: after) type u64s = before ++ (if u64s = 0 then after else r.resize u64s :: after) := by
  induction before with
  | nil => rw [List.nil_append,sbFieldsResize,if_pos is,List.nil_append]
  | cons q before ih =>
    rw [List.map_cons,List.mem_cons,not_or] at first
    rw [List.cons_append,sbFieldsResize,if_neg (fun same => first.1 same.symm),ih first.2,List.cons_append]

theorem sbFieldsResize_absent {rs : List SbField} (absent : type ∉ rs.map SbField.type) :
    sbFieldsResize rs type u64s = rs ++ (if u64s = 0 then [] else [SbField.fresh type u64s]) := by
  induction rs with
  | nil => rw [sbFieldsResize,List.nil_append]
  | cons r rs ih =>
    rw [List.map_cons,List.mem_cons,not_or] at absent
    rw [sbFieldsResize,if_neg (fun same => absent.1 same.symm),ih absent.2,List.cons_append]

theorem resizePayload_of_le {payload : List UInt64} {m : Nat} (le : m ≤ payload.length) :
    resizePayload payload m = payload.take m := by
  rw [resizePayload,Nat.sub_eq_zero_of_le le,List.replicate_zero,List.append_nil]

theorem resizePayload_of_ge {payload : List UInt64} {m : Nat} (ge : payload.length ≤ m) :
    resizePayload payload m = payload ++ List.replicate (m - payload.length) 0 := by
  rw [resizePayload,List.take_of_length_le ge]

@[simp] theorem SbField.type_resize (r : SbField) : (r.resize u64s).type = r.type := rfl

@[simp] theorem SbField.payload_resize (r : SbField) :
    (r.resize u64s).payload = resizePayload r.payload (u64s.toNat - 1) := rfl

@[simp] theorem SbField.type_fresh : (SbField.fresh type u64s).type = type := rfl

@[simp] theorem SbField.payload_fresh : (SbField.fresh type u64s).payload = List.replicate (u64s.toNat - 1) 0 := rfl

theorem SbField.u64s_resize (r : SbField) (nonzero : u64s ≠ 0) : (r.resize u64s).u64s = u64s.toNat := by
  have pos : u64s.toNat ≠ 0 := fun zero => nonzero (UInt32.toNat_inj.mp zero)
  rw [SbField.u64s,SbField.resize,length_resizePayload]
  omega

theorem SbField.u64s_fresh (nonzero : u64s ≠ 0) : (SbField.fresh type u64s).u64s = u64s.toNat := by
  have pos : u64s.toNat ≠ 0 := fun zero => nonzero (UInt32.toNat_inj.mp zero)
  rw [SbField.u64s,SbField.fresh,List.length_replicate]
  omega

theorem type_mem_sbFieldsResize {rs : List SbField} {t : UInt32}
    (mem : t ∈ (sbFieldsResize rs type u64s).map SbField.type) : t ∈ rs.map SbField.type ∨ t = type := by
  induction rs with
  | nil =>
    rw [sbFieldsResize] at mem
    split at mem
    · cases mem
    · exact .inr (List.mem_singleton.mp mem)
  | cons r rs ih =>
    rw [sbFieldsResize] at mem
    split at mem
    · split at mem
      · exact .inl (List.mem_cons_of_mem _ mem)
      · rw [List.map_cons] at mem
        rcases List.mem_cons.mp mem with same | later
        · exact .inl (by rw [same,List.map_cons]; exact List.mem_cons_self)
        · exact .inl (List.mem_cons_of_mem _ later)
    · rw [List.map_cons] at mem
      rcases List.mem_cons.mp mem with same | later
      · exact .inl (by rw [same,List.map_cons]; exact List.mem_cons_self)
      · rcases ih later with old | new
        · exact .inl (List.mem_cons_of_mem _ old)
        · exact .inr new

theorem nodup_sbFieldsResize {rs : List SbField} (unique : (rs.map SbField.type).Nodup) :
    ((sbFieldsResize rs type u64s).map SbField.type).Nodup := by
  induction rs with
  | nil =>
    rw [sbFieldsResize]
    split
    · exact List.nodup_nil
    · exact List.nodup_singleton _
  | cons r rs ih =>
    rw [List.map_cons,List.nodup_cons] at unique
    rw [sbFieldsResize]
    split
    · split
      · exact unique.2
      · rw [List.map_cons,List.nodup_cons]
        exact ⟨unique.1,unique.2⟩
    · rw [List.map_cons,List.nodup_cons]
      refine ⟨fun mem => ?_,ih unique.2⟩
      rcases type_mem_sbFieldsResize mem with old | new
      · exact unique.1 old
      · exact ‹¬r.type = type› new

end Records

section InPlace
variable {pre payload post rest : List UInt64} {w : UInt64} {u64s : UInt32}

theorem drop_field_end (pre payload post rest : List UInt64) (w : UInt64) :
    (pre ++ w :: payload ++ post ++ rest).drop (pre.length + (payload.length + 1)) = post ++ rest := by
  rw [List.append_assoc,show pre.length + (payload.length + 1) = (pre ++ w :: payload).length by simp,List.drop_left]

theorem take_post (post rest : List UInt64) : (post ++ rest).take post.length = post := List.take_left

theorem length_field_split (pre payload post rest : List UInt64) (w : UInt64) :
    (pre ++ w :: payload ++ post ++ rest).length = pre.length + (payload.length + 1) + post.length + rest.length := by
  simp only [List.length_append,List.length_cons]

theorem getD_field_header (pre payload post rest : List UInt64) (w : UInt64) :
    (pre ++ w :: payload ++ post ++ rest).getD pre.length 0 = w := by
  rw [List.append_assoc,List.append_assoc]
  exact getD_append_cons _ _ _ _

theorem set_append_cons (pre tail : List UInt64) (w w' : UInt64) :
    (pre ++ w :: tail).set pre.length w' = pre ++ w' :: tail := by
  rw [List.set_append_right _ _ le_rfl,Nat.sub_self,List.set_cons_zero]

theorem set_field_header (pre payload post rest : List UInt64) (w w' : UInt64) :
    (pre ++ w :: payload ++ post ++ rest).set pre.length w' = pre ++ w' :: payload ++ post ++ rest := by
  simp only [List.append_assoc,List.cons_append]
  exact set_append_cons _ _ _ _

theorem sbFieldResizeInPlace_remove :
    sbFieldResizeInPlace (pre ++ w :: payload ++ post ++ rest) (pre.length + (payload.length + 1) + post.length)
      pre.length (payload.length + 1) 0 =
      some (pre ++ post ++ (w :: payload ++ post ++ rest).drop post.length) := by
  have inside := length_field_split pre payload post rest w
  have moved : memcpy (pre ++ (w :: payload ++ post ++ rest)) pre.length post =
      some (pre ++ post ++ (w :: payload ++ post ++ rest).drop post.length) :=
    memcpy_append _ _ _ (by simp only [List.length_append,List.length_cons]; omega)
  unfold sbFieldResizeInPlace
  dsimp only
  rw [if_pos rfl,if_pos rfl,Nat.add_sub_cancel_left,memmove_of_le (by omega),drop_field_end,take_post,
    show pre ++ w :: payload ++ post ++ rest = pre ++ (w :: payload ++ post ++ rest) by simp only [List.append_assoc],moved]
  exact if_neg (by omega)

theorem sbFieldResizeInPlace_shrink (nonzero : u64s ≠ 0) (le : u64s.toNat ≤ payload.length + 1) :
    sbFieldResizeInPlace (pre ++ w :: payload ++ post ++ rest) (pre.length + (payload.length + 1) + post.length)
      pre.length (payload.length + 1) u64s =
      some (pre ++ setSbFieldU64s w u64s :: payload.take (u64s.toNat - 1) ++ post ++
        (payload.drop (u64s.toNat - 1) ++ post ++ rest).drop post.length) := by
  have pos : 0 < u64s.toNat := Nat.pos_of_ne_zero fun zero => nonzero (UInt32.toNat_inj.mp zero)
  have inside := length_field_split pre payload post rest (setSbFieldU64s w u64s)
  have moved : memcpy (pre ++ setSbFieldU64s w u64s :: payload ++ post ++ rest) (pre.length + u64s.toNat) post =
      some (pre ++ setSbFieldU64s w u64s :: payload.take (u64s.toNat - 1) ++ post ++
        (payload.drop (u64s.toNat - 1) ++ post ++ rest).drop post.length) := by
    have split : pre ++ setSbFieldU64s w u64s :: payload ++ post ++ rest =
        (pre ++ setSbFieldU64s w u64s :: payload.take (u64s.toNat - 1)) ++ (payload.drop (u64s.toNat - 1) ++ post ++ rest) := by
      conv => lhs; rw [← List.take_append_drop (u64s.toNat - 1) payload]
      simp only [List.append_assoc,List.cons_append]
    have dst : pre.length + u64s.toNat = (pre ++ setSbFieldU64s w u64s :: payload.take (u64s.toNat - 1)).length := by
      simp only [List.length_append,List.length_cons,List.length_take]
      omega
    rw [split,dst,memcpy_append _ _ _ (by simp only [List.length_append,List.length_drop]; omega)]
  unfold sbFieldResizeInPlace
  dsimp only
  rw [if_neg nonzero,if_neg nonzero,getD_field_header,set_field_header,Nat.add_sub_cancel_left,memmove_of_le (by omega),
    drop_field_end,take_post,moved]
  exact if_neg (by omega)

theorem sbFieldResizeInPlace_grow (gt : payload.length + 1 < u64s.toNat)
    (room : pre.length + u64s.toNat + post.length ≤ (pre ++ w :: payload ++ post ++ rest).length) :
    sbFieldResizeInPlace (pre ++ w :: payload ++ post ++ rest) (pre.length + (payload.length + 1) + post.length)
      pre.length (payload.length + 1) u64s =
      some (pre ++ setSbFieldU64s w u64s :: payload ++ List.replicate (u64s.toNat - (payload.length + 1)) 0 ++ post ++
        ((post ++ rest).drop (u64s.toNat - (payload.length + 1))).drop post.length) := by
  have nonzero : u64s ≠ 0 := fun zero => by rw [zero,UInt32.toNat_zero] at gt; omega
  rw [length_field_split] at room
  have inside := length_field_split pre payload post rest (setSbFieldU64s w u64s)
  -- k words of clearing; x the k words the moved tail lands over.
  let k := u64s.toNat - (payload.length + 1)
  let x := (post ++ rest).take k
  have xLength : x.length = k := by
    simp only [x,List.length_take,List.length_append]
    omega
  have moved : memcpy (pre ++ setSbFieldU64s w u64s :: payload ++ post ++ rest) (pre.length + u64s.toNat) post =
      some (pre ++ setSbFieldU64s w u64s :: payload ++ x ++ post ++ ((post ++ rest).drop k).drop post.length) := by
    have split : pre ++ setSbFieldU64s w u64s :: payload ++ post ++ rest =
        (pre ++ setSbFieldU64s w u64s :: payload ++ x) ++ (post ++ rest).drop k := by
      simp only [x,List.append_assoc,List.take_append_drop]
    have dst : pre.length + u64s.toNat = (pre ++ setSbFieldU64s w u64s :: payload ++ x).length := by
      simp only [List.length_append,List.length_cons,xLength]
      omega
    rw [split,dst,memcpy_append _ _ _ (by simp only [List.length_drop,List.length_append]; omega)]
  have cleared : memset (pre ++ setSbFieldU64s w u64s :: payload ++ x ++ post ++ ((post ++ rest).drop k).drop post.length)
      (pre.length + (payload.length + 1)) 0 k =
      some (pre ++ setSbFieldU64s w u64s :: payload ++ List.replicate k 0 ++ post ++ ((post ++ rest).drop k).drop post.length) := by
    have split : pre ++ setSbFieldU64s w u64s :: payload ++ x ++ post ++ ((post ++ rest).drop k).drop post.length =
        (pre ++ setSbFieldU64s w u64s :: payload) ++ (x ++ post ++ ((post ++ rest).drop k).drop post.length) := by
      simp only [List.append_assoc]
    have src : pre.length + (payload.length + 1) = (pre ++ setSbFieldU64s w u64s :: payload).length := by
      simp only [List.length_append,List.length_cons]
    unfold memset
    rw [split,src,memcpy_append _ _ _ (by simp only [List.length_replicate,List.length_append,xLength]; omega),
      List.length_replicate,List.append_assoc x,List.drop_left' xLength]
    simp only [List.append_assoc]
  unfold sbFieldResizeInPlace
  dsimp only
  rw [if_neg nonzero,if_neg nonzero,getD_field_header,set_field_header,Nat.add_sub_cancel_left,memmove_of_le (by omega),
    drop_field_end,take_post,moved,Nat.add_sub_add_left]
  exact (if_pos (by omega)).trans cleared

theorem sbFieldResizeInPlace_found (room : pre.length + u64s.toNat + post.length ≤ (pre ++ w :: payload ++ post ++ rest).length) :
    ∃ rest', sbFieldResizeInPlace (pre ++ w :: payload ++ post ++ rest) (pre.length + (payload.length + 1) + post.length)
      pre.length (payload.length + 1) u64s =
      some (pre ++ (if u64s = 0 then [] else setSbFieldU64s w u64s :: resizePayload payload (u64s.toNat - 1)) ++ post ++ rest') := by
  by_cases zero : u64s = 0
  · subst zero
    refine ⟨(w :: payload ++ post ++ rest).drop post.length,?_⟩
    rw [sbFieldResizeInPlace_remove,if_pos rfl,List.append_nil]
  · rw [if_neg zero]
    by_cases le : u64s.toNat ≤ payload.length + 1
    · rw [resizePayload_of_le (by omega)]
      exact ⟨_,sbFieldResizeInPlace_shrink zero le⟩
    · rw [resizePayload_of_ge (by omega),show u64s.toNat - 1 - payload.length = u64s.toNat - (payload.length + 1) by omega]
      refine ⟨((post ++ rest).drop (u64s.toNat - (payload.length + 1))).drop post.length,?_⟩
      rw [sbFieldResizeInPlace_grow (by omega) room]
      simp only [List.append_assoc,List.cons_append]

end InPlace

section Resize
variable {sb : BchSbHandle} {type u64s : UInt32}

theorem sbFieldAppend_eq (used rest : List UInt64) (nonzero : u64s ≠ 0) (room : u64s.toNat ≤ rest.length) :
    sbFieldAppend (used ++ rest) used.length u64s =
      some (used ++ setSbFieldType (setSbFieldU64s 0 u64s) 0 :: List.replicate (u64s.toNat - 1) 0 ++ rest.drop u64s.toNat) := by
  obtain ⟨m,size⟩ : ∃ m, u64s.toNat = m + 1 :=
    ⟨u64s.toNat - 1,by have := fun zero => nonzero (UInt32.toNat_inj.mp zero); simp at this; omega⟩
  have cleared : memset (used ++ rest) used.length 0 u64s.toNat =
      some (used ++ (0 : UInt64) :: List.replicate (u64s.toNat - 1) 0 ++ rest.drop u64s.toNat) := by
    unfold memset
    rw [memcpy_append _ _ _ (by rw [List.length_replicate]; exact room),List.length_replicate,size,List.replicate_succ,
      Nat.add_sub_cancel]
  unfold sbFieldAppend
  rw [cleared]
  refine congrArg some ?_
  simp only [List.append_assoc,List.cons_append]
  rw [getD_append_cons,set_append_cons]

theorem bch2SbFieldResizeRaw_found {pre payload post rest : List UInt64} {w : UInt64}
    (data : sb.data = pre ++ w :: payload ++ post ++ rest) (size : sbFieldU64s w = payload.length + 1)
    (used : sb.u64s = pre.length + (payload.length + 1) + post.length)
    (room : sbVstructBytes (pre.length + u64s.toNat + post.length) ≤ sb.bufferSize) :
    ∃ rest', bch2SbFieldResizeRaw sb (some pre.length) u64s =
      some ({ sb with
          data := pre ++ (if u64s = 0 then [] else setSbFieldU64s w u64s :: resizePayload payload (u64s.toNat - 1)) ++ post ++ rest',
          u64s := pre.length + u64s.toNat + post.length },if u64s = 0 then none else some pre.length) := by
  have header : sb.data.getD pre.length 0 = w := by
    rw [data]
    exact getD_field_header _ _ _ _ _
  have total : sb.u64s + u64s.toNat - (payload.length + 1) = pre.length + u64s.toNat + post.length := by omega
  have words : pre.length + u64s.toNat + post.length ≤ (pre ++ w :: payload ++ post ++ rest).length := by
    rw [← data]
    unfold BchSbHandle.bufferSize sbVstructBytes at room
    omega
  obtain ⟨rest',moved⟩ := sbFieldResizeInPlace_found words
  refine ⟨rest',?_⟩
  unfold bch2SbFieldResizeRaw
  dsimp only
  rw [header,size,total,if_neg (Nat.not_lt.mpr room),data,used,moved]
  rfl

theorem bch2SbFieldResizeRaw_absent {used rest : List UInt64}
    (data : sb.data = used ++ rest) (size : sb.u64s = used.length)
    (room : sbVstructBytes (used.length + u64s.toNat) ≤ sb.bufferSize) :
    bch2SbFieldResizeRaw sb none u64s =
      some (if u64s = 0 then ({ sb with u64s := used.length },none)
        else ({ sb with
            data := used ++ setSbFieldType (setSbFieldU64s 0 u64s) 0 :: List.replicate (u64s.toNat - 1) 0 ++ rest.drop u64s.toNat,
            u64s := used.length + u64s.toNat },some used.length)) := by
  have words : u64s.toNat ≤ rest.length := by
    unfold BchSbHandle.bufferSize sbVstructBytes at room
    rw [data,List.length_append] at room
    omega
  unfold bch2SbFieldResizeRaw
  dsimp only
  rw [Nat.sub_zero,size,if_neg (Nat.not_lt.mpr room)]
  by_cases zero : u64s = 0
  · subst zero
    rw [if_pos rfl,if_pos rfl,UInt32.toNat_zero,Nat.add_zero]
  · rw [if_neg zero,if_neg zero,data,sbFieldAppend_eq used rest zero words]
    rfl

theorem sbFieldResizeTyped_found {before after : List SbField} {r : SbField}
    (fields : sb.HasFields (before ++ r :: after)) (first : type ∉ before.map SbField.type) (is : r.type = type)
    (room : sbVstructBytes (sbFieldsU64s (sbFieldsResize (before ++ r :: after) type u64s)) ≤ sb.bufferSize) :
    ∃ sb', sbFieldResizeTyped sb type u64s =
        some (sb',if u64s = 0 then none else sbFieldsOffset (sbFieldsResize (before ++ r :: after) type u64s) type) ∧
      sb'.HasFields (sbFieldsResize (before ++ r :: after) type u64s) := by
  obtain ⟨rest,data,used⟩ := fields.split
  have found := bch2SbFieldGetId_of_hasFields fields type
  rw [sbFieldsOffset_split first is,← length_sbFieldsLayout] at found
  rw [sbFieldsResize_split first is] at room ⊢
  have roomWords : sbVstructBytes ((sbFieldsLayout before).length + u64s.toNat + (sbFieldsLayout after).length) ≤
      sb.bufferSize := by
    refine le_trans (le_of_eq ?_) room
    rw [length_sbFieldsLayout,length_sbFieldsLayout,sbFieldsU64s_append]
    by_cases zero : u64s = 0
    · rw [if_pos zero,zero,UInt32.toNat_zero,Nat.add_zero]
    · rw [if_neg zero,sbFieldsU64s_cons,SbField.u64s_resize r zero,Nat.add_assoc]
  obtain ⟨rest',raw⟩ := bch2SbFieldResizeRaw_found data (sbFieldU64s_header _ r.u64s_lt) used roomWords
  unfold sbFieldResizeTyped
  rw [found]
  by_cases zero : u64s = 0
  · subst zero
    rw [if_pos rfl,if_pos rfl,UInt32.toNat_zero,Nat.add_zero] at raw
    rw [raw,if_pos rfl,if_pos rfl]
    refine ⟨_,rfl,rest',?_,?_⟩
    · rw [sbFieldsLayout_append,List.append_nil]
    · rw [sbFieldsU64s_append,length_sbFieldsLayout,length_sbFieldsLayout]
  · have header : setSbFieldU64s (sbFieldHeader r.type r.u64s) u64s = sbFieldHeader type (r.resize u64s).u64s := by
      rw [setSbFieldU64s_header,SbField.u64s_resize r zero,is]
    rw [if_neg zero,if_neg zero,header] at raw
    rw [raw,if_neg zero,if_neg zero,sbFieldsOffset_split (r := r.resize u64s) first is,← length_sbFieldsLayout]
    refine ⟨_,rfl,rest',?_,?_⟩
    · dsimp only
      simp only [List.append_assoc,List.cons_append]
      rw [getD_append_cons,setSbFieldType_header,set_append_cons,sbFieldsLayout_append,sbFieldsLayout_cons,SbField.words,
        SbField.type_resize,SbField.payload_resize,is]
      simp only [List.append_assoc,List.cons_append]
    · rw [sbFieldsU64s_append,sbFieldsU64s_cons,SbField.u64s_resize r zero,length_sbFieldsLayout,length_sbFieldsLayout,
        Nat.add_assoc]

theorem sbFieldResizeTyped_absent {rs : List SbField} (fields : sb.HasFields rs) (absent : type ∉ rs.map SbField.type)
    (room : sbVstructBytes (sbFieldsU64s (sbFieldsResize rs type u64s)) ≤ sb.bufferSize) :
    ∃ sb', sbFieldResizeTyped sb type u64s =
        some (sb',if u64s = 0 then none else sbFieldsOffset (sbFieldsResize rs type u64s) type) ∧
      sb'.HasFields (sbFieldsResize rs type u64s) := by
  have none : sbFieldsOffset rs type = none := by
    cases offset : sbFieldsOffset rs type with
    | none => rfl
    | some p =>
      obtain ⟨before,r,after,split,is,-,-⟩ := sbFieldsOffset_eq_some offset
      exact absurd (by rw [split,List.map_append,List.map_cons,is]; simp) absent
  have found := bch2SbFieldGetId_of_hasFields fields type
  rw [none] at found
  obtain ⟨rest,data,used⟩ := fields
  rw [sbFieldsResize_absent absent] at room ⊢
  have roomWords : sbVstructBytes ((sbFieldsLayout rs).length + u64s.toNat) ≤ sb.bufferSize := by
    refine le_trans (le_of_eq ?_) room
    rw [length_sbFieldsLayout,sbFieldsU64s_append]
    by_cases zero : u64s = 0
    · rw [if_pos zero,zero,UInt32.toNat_zero]
      rfl
    · rw [if_neg zero,sbFieldsU64s_cons,SbField.u64s_fresh zero,sbFieldsU64s_nil,Nat.add_zero]
  have raw := bch2SbFieldResizeRaw_absent data (used.trans (length_sbFieldsLayout rs).symm) roomWords
  unfold sbFieldResizeTyped
  rw [found]
  by_cases zero : u64s = 0
  · subst zero
    rw [if_pos rfl] at raw
    rw [raw,if_pos rfl,if_pos rfl]
    refine ⟨_,rfl,rest,?_,?_⟩
    · rw [List.append_nil]
      exact data
    · rw [List.append_nil,length_sbFieldsLayout]
  · rw [if_neg zero] at raw
    rw [raw,if_neg zero,if_neg zero,sbFieldsOffset_append_fresh absent,← length_sbFieldsLayout]
    refine ⟨_,rfl,rest.drop u64s.toNat,?_,?_⟩
    · dsimp only
      simp only [List.append_assoc,List.cons_append]
      rw [getD_append_cons,setSbFieldType_appended,set_append_cons,sbFieldsLayout_append,sbFieldsLayout_cons,
        sbFieldsLayout_nil,List.append_nil,SbField.words,SbField.u64s_fresh zero,SbField.type_fresh,SbField.payload_fresh]
      simp only [List.append_assoc,List.cons_append]
    · rw [sbFieldsU64s_append,sbFieldsU64s_cons,SbField.u64s_fresh zero,sbFieldsU64s_nil,Nat.add_zero,length_sbFieldsLayout]

theorem sbFieldResizeTyped_spec {rs : List SbField} (fields : sb.HasFields rs)
    (room : sbVstructBytes (sbFieldsU64s (sbFieldsResize rs type u64s)) ≤ sb.bufferSize) :
    ∃ sb', sbFieldResizeTyped sb type u64s =
        some (sb',if u64s = 0 then none else sbFieldsOffset (sbFieldsResize rs type u64s) type) ∧
      sb'.HasFields (sbFieldsResize rs type u64s) := by
  cases offset : sbFieldsOffset rs type with
  | none => exact sbFieldResizeTyped_absent fields (sbFieldsOffset_eq_none offset) room
  | some p =>
    obtain ⟨before,r,after,rfl,is,first,-⟩ := sbFieldsOffset_eq_some offset
    exact sbFieldResizeTyped_found fields first is room

end Resize

section Realloc
variable {sb sb' : BchSbHandle} {u64s : Nat}

theorem le_roundupPowOfTwo (n : Nat) : n ≤ roundupPowOfTwo n := by
  unfold roundupPowOfTwo flsLong
  split
  · rw [Nat.pow_zero]
    omega
  · have := Nat.lt_log2_self (n := n - 1)
    omega

theorem sbVstructBytes_le_reallocBytes (sb : BchSbHandle) (u64s : Nat) :
    sbVstructBytes u64s ≤ bch2SbReallocBytes sb u64s := by
  unfold bch2SbReallocBytes
  split
  · exact Nat.le_max_left _ _
  · exact le_rfl

theorem bch2SbRealloc_of_hasRoom (room : sb.HasRoom u64s) : bch2SbRealloc sb u64s = .ok sb := if_pos room

theorem bch2SbRealloc_ok (grown : bch2SbRealloc sb u64s = .ok sb') :
    sb'.u64s = sb.u64s ∧ (∃ zeros, sb'.data = sb.data ++ zeros) ∧ sbVstructBytes u64s ≤ sb'.bufferSize := by
  have asked := le_trans (sbVstructBytes_le_reallocBytes sb u64s) (le_roundupPowOfTwo (bch2SbReallocBytes sb u64s))
  unfold bch2SbRealloc at grown
  dsimp only at grown
  split at grown
  · cases grown
    exact ⟨rfl,⟨[],(List.append_nil _).symm⟩,le_trans asked ‹_›⟩
  · split at grown
    · cases grown
    · cases grown
      refine ⟨rfl,⟨_,rfl⟩,?_⟩
      unfold BchSbHandle.bufferSize sbVstructBytes at *
      rw [List.length_append,List.length_replicate]
      unfold bchSbDataOffset at *
      omega

theorem BchSbHandle.HasFields.append_data {rs : List SbField} (fields : sb.HasFields rs) (used : sb'.u64s = sb.u64s)
    (data : ∃ zeros, sb'.data = sb.data ++ zeros) : sb'.HasFields rs := by
  obtain ⟨rest,words,size⟩ := fields
  obtain ⟨zeros,grown⟩ := data
  exact ⟨rest ++ zeros,by rw [grown,words,List.append_assoc],used.trans size⟩

end Realloc

section ResizeId
variable {sb : BchSbHandle} {rs : List SbField} {type u64s : UInt32}

theorem resizeId_request (fields : sb.HasFields rs) :
    sb.u64s + u64s.toNat - bch2SbFieldOldU64s sb type = sbFieldsU64s (sbFieldsResize rs type u64s) := by
  unfold bch2SbFieldOldU64s
  rw [bch2SbFieldGetId_of_hasFields fields]
  cases offset : sbFieldsOffset rs type with
  | none =>
    obtain ⟨rest,data,used⟩ := fields
    rw [sbFieldsResize_absent (sbFieldsOffset_eq_none offset),sbFieldsU64s_append,used,Nat.sub_zero]
    by_cases zero : u64s = 0
    · rw [if_pos zero,zero,UInt32.toNat_zero]
      rfl
    · rw [if_neg zero,sbFieldsU64s_cons,SbField.u64s_fresh zero,sbFieldsU64s_nil,Nat.add_zero]
  | some p =>
    obtain ⟨before,r,after,rfl,is,first,rfl⟩ := sbFieldsOffset_eq_some offset
    obtain ⟨rest,data,used⟩ := fields.split
    have header : sb.data.getD (sbFieldsU64s before) 0 = sbFieldHeader r.type r.u64s := by
      rw [data,← length_sbFieldsLayout]
      exact getD_field_header _ _ _ _ _
    dsimp only
    rw [header,sbFieldU64s_header _ r.u64s_lt,sbFieldsResize_split first is,used,sbFieldsU64s_append,
      length_sbFieldsLayout,length_sbFieldsLayout,SbField.u64s]
    by_cases zero : u64s = 0
    · rw [if_pos zero,zero,UInt32.toNat_zero]
      omega
    · rw [if_neg zero,sbFieldsU64s_cons,SbField.u64s_resize r zero]
      omega

theorem bch2SbFieldResizeId_eq (fields : sb.HasFields rs) :
    bch2SbFieldResizeId sb type u64s =
      match bch2SbRealloc sb (sbFieldsU64s (sbFieldsResize rs type u64s)) with
      | .error _ => some (sb,none)
      | .ok sb => sbFieldResizeTyped sb type u64s := by
  rw [bch2SbFieldResizeId,resizeId_request fields]

theorem sb_field_resize_id_records (fields : sb.HasFields rs) (type u64s : UInt32) :
    (sb.HasRoom (sbFieldsU64s (sbFieldsResize rs type u64s)) →
      ∃ sb', bch2SbFieldResizeId sb type u64s =
          some (sb',if u64s = 0 then none else sbFieldsOffset (sbFieldsResize rs type u64s) type) ∧
        sb'.HasFields (sbFieldsResize rs type u64s)) ∧
    (∀ sb' p, bch2SbFieldResizeId sb type u64s = some (sb',some p) →
      sb'.HasFields (sbFieldsResize rs type u64s) ∧ sbFieldsOffset (sbFieldsResize rs type u64s) type = some p) ∧
    (∃ sb', bch2SbFieldDelete sb type = some sb' ∧ sb'.HasFields (sbFieldsResize rs type 0) ∧
      (type ∉ rs.map SbField.type → sb' = sb)) := by
  refine ⟨?_,?_,?_⟩
  · -- A buffer already large enough: the realloc changes nothing.
    intro room
    have asked := le_trans (sbVstructBytes_le_reallocBytes sb _) (le_trans (le_roundupPowOfTwo _) room)
    rw [bch2SbFieldResizeId_eq fields,bch2SbRealloc_of_hasRoom room]
    exact sbFieldResizeTyped_spec fields asked
  · intro sb' p resized
    rw [bch2SbFieldResizeId_eq fields] at resized
    split at resized
    · cases resized
    · rename_i grownSb grown
      obtain ⟨used,data,asked⟩ := bch2SbRealloc_ok grown
      obtain ⟨sb'',typed,fields''⟩ := sbFieldResizeTyped_spec (fields.append_data used data) asked
      rw [typed] at resized
      obtain ⟨rfl,found⟩ := Prod.mk.inj (Option.some.inj resized)
      by_cases zero : u64s = 0
      · rw [if_pos zero] at found
        cases found
      · rw [if_neg zero] at found
        exact ⟨fields'',found⟩
  · -- bch2_sb_field_delete: the n = 0 resize, with no realloc.
    unfold bch2SbFieldDelete
    rw [bch2SbFieldGetId_of_hasFields fields]
    cases offset : sbFieldsOffset rs type with
    | none =>
      have absent := sbFieldsOffset_eq_none offset
      refine ⟨sb,rfl,?_,fun _ => rfl⟩
      rw [sbFieldsResize_absent absent,if_pos rfl,List.append_nil]
      exact fields
    | some p =>
      obtain ⟨before,r,after,rfl,is,first,rfl⟩ := sbFieldsOffset_eq_some offset
      obtain ⟨rest,data,used⟩ := fields.split
      have room : sbVstructBytes ((sbFieldsLayout before).length + (0 : UInt32).toNat + (sbFieldsLayout after).length) ≤
          sb.bufferSize := by
        have inside := fields.u64s_le
        unfold BchSbHandle.bufferSize sbVstructBytes
        rw [UInt32.toNat_zero]
        omega
      obtain ⟨rest',raw⟩ := bch2SbFieldResizeRaw_found data (sbFieldU64s_header _ r.u64s_lt) used room
      rw [if_pos rfl,if_pos rfl,UInt32.toNat_zero,Nat.add_zero] at raw
      dsimp only
      rw [← length_sbFieldsLayout,raw,sbFieldsResize_split first is,if_pos rfl]
      refine ⟨_,rfl,⟨rest',?_,?_⟩,fun absent => absurd ?_ absent⟩
      · rw [sbFieldsLayout_append,List.append_nil]
      · rw [sbFieldsU64s_append,length_sbFieldsLayout,length_sbFieldsLayout]
      · rw [List.map_append,List.map_cons,is]
        exact List.mem_append_right _ List.mem_cons_self

-- One field of type 5 with one word of payload, grown to three words in a 1 KiB buffer.
theorem sb_field_resize_id_grows_one_field :
    ∃ sb', bch2SbFieldResizeId ⟨sbFieldsLayout [⟨5,[7],by decide⟩] ++ List.replicate 32 0,2,none,false,0⟩ 5 3 =
        some (sb',some 0) ∧ sb'.u64s = 3 ∧ sb'.data.take 3 = [sbFieldHeader 5 3,7,0] := by
  have fields : (⟨sbFieldsLayout [⟨5,[7],by decide⟩] ++ List.replicate 32 0,2,none,false,0⟩ : BchSbHandle).HasFields
      [⟨5,[7],by decide⟩] := ⟨_,rfl,rfl⟩
  obtain ⟨sb',resized,rest,data,used⟩ := (sb_field_resize_id_records fields 5 3).1 (by unfold BchSbHandle.HasRoom; decide)
  refine ⟨sb',resized.trans rfl,used.trans rfl,?_⟩
  rw [data]
  exact List.take_left' rfl

theorem roundupPowOfTwo_mono {m n : Nat} (le : m ≤ n) : roundupPowOfTwo m ≤ roundupPowOfTwo n := by
  unfold roundupPowOfTwo flsLong
  apply Nat.pow_le_pow_right (by decide)
  by_cases small : m - 1 = 0
  · rw [if_pos small]
    exact Nat.zero_le _
  · rw [if_neg small,if_neg (by omega),Nat.add_le_add_iff_right,Nat.le_log2 (by omega)]
    exact le_trans (Nat.log2_self_le small) (by omega)

theorem bch2SbReallocBytes_mono (sb : BchSbHandle) {m n : Nat} (le : m ≤ n) :
    bch2SbReallocBytes sb m ≤ bch2SbReallocBytes sb n := by
  unfold bch2SbReallocBytes sbVstructBytes
  split <;> omega

theorem BchSbHandle.HasRoom.mono {m n : Nat} (room : sb.HasRoom n) (le : m ≤ n) : sb.HasRoom m :=
  le_trans (roundupPowOfTwo_mono (bch2SbReallocBytes_mono sb le)) room

-- A resize that does not grow the field it finds asks bch2_sb_realloc for no more than
-- the fields take already, so it never fails.
theorem bch2SbFieldResizeId_shrink {before after : List SbField} {r : SbField}
    (fields : sb.HasFields (before ++ r :: after)) (first : type ∉ before.map SbField.type) (is : r.type = type)
    (nonzero : u64s ≠ 0) (le : u64s.toNat ≤ r.u64s) (room : sb.HasRoom sb.u64s) :
    ∃ sb', bch2SbFieldResizeId sb type u64s = some (sb',some (sbFieldsU64s before)) := by
  have smaller : sbFieldsU64s (sbFieldsResize (before ++ r :: after) type u64s) ≤ sb.u64s := by
    obtain ⟨_,_,used⟩ := fields
    rw [used,sbFieldsResize_split first is,if_neg nonzero,sbFieldsU64s_append,sbFieldsU64s_append,sbFieldsU64s_cons,
      sbFieldsU64s_cons,SbField.u64s_resize r nonzero]
    omega
  obtain ⟨sb',resized,-⟩ := (sb_field_resize_id_records fields type u64s).1 (room.mono smaller)
  rw [if_neg nonzero,sbFieldsResize_split first is,if_neg nonzero,sbFieldsOffset_split (r := r.resize u64s) first is]
    at resized
  exact ⟨sb',resized⟩

-- The same for a size its caller counts in words as a Nat: a positive one no larger
-- than the field survives the cast to u32.
theorem bch2SbFieldResizeId_shrink_words {before after : List SbField} {r : SbField} {n : Nat}
    (fields : sb.HasFields (before ++ r :: after)) (first : type ∉ before.map SbField.type) (is : r.type = type)
    (positive : 0 < n) (le : n ≤ r.u64s) (room : sb.HasRoom sb.u64s) :
    ∃ sb', bch2SbFieldResizeId sb type n.toUInt32 = some (sb',some (sbFieldsU64s before)) := by
  have sized : n.toUInt32.toNat = n := by
    rw [Nat.toUInt32_eq,UInt32.toNat_ofNat',Nat.mod_eq_of_lt (lt_of_le_of_lt le r.u64s_lt)]
  refine bch2SbFieldResizeId_shrink fields first is (fun zero => ?_) (by rw [sized]; exact le) room
  rw [zero,UInt32.toNat_zero] at sized
  omega

end ResizeId

end Bcachefs
