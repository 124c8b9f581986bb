import Bcachefs.Lib.Bytes
import Bcachefs.Extents.Entry

namespace Bcachefs
open Bytes Loop

def BCH_NAME_MAX : Nat := 512
def DT_SUBVOL : UInt8 := 16
def POS_MIN : Bpos := ⟨0,0,0⟩

-- offsetof(struct bch_dirent, d_name), offsetof(struct bch_dirent, d_cf_name_block.d_names)
-- and sizeof(struct bch_dirent): d_inum, the type byte, then the names.
def direntNameOffset : Nat := 9
def direntCfNamesOffset : Nat := 14
def direntValSize : Nat := 16

def direntValU64s (len cfLen : Nat) : Nat :=
  let bytes := if cfLen ≠ 0 then direntCfNamesOffset + len + cfLen else direntNameOffset + len
  DIV_ROUND_UP bytes 8

structure SubvolInum where
  subvol : UInt32
  inum : UInt64
  deriving DecidableEq, Repr

-- struct qstr: its length, and the bytes its pointer designates.
structure Qstr where
  len : Nat
  name : List UInt8
  deriving DecidableEq, Repr

-- struct bkey_i_dirent: the key's size and position, and the bytes of the value.
structure BkeyIDirent where
  u64s : Nat
  p : Bpos
  v : List UInt8
  deriving DecidableEq, Repr

def bkeyValBytes (k : BkeyIDirent) : Nat := (k.u64s - BKEY_U64s.toNat) * 8

-- How dirent_create_key ends when it makes no key. A memcpy or memset past the
-- value's bytes writes outside the allocation.
inductive DirentKeyErr where
  | enametoolong
  | bugOn
  | valueOverrun
  deriving DecidableEq, Repr

def withinValue {α : Type} : Option α → Except DirentKeyErr α
  | some a => .ok a
  | none => .error .valueOverrun

-- The target of dirent_alloc_key: d_inum, or for a subvolume d_parent_subvol then
-- d_child_subvol.
def direntStoreTarget (v : List UInt8) (dir : SubvolInum) (type : UInt8) (dst : UInt64) :
    Except DirentKeyErr (List UInt8) :=
  if type ≠ DT_SUBVOL then withinValue (storeLE v 0 8 dst.toNat) else do
    let v ← withinValue (storeLE v 4 4 dir.subvol.toNat)
    withinValue (storeLE v 0 4 dst.toNat)

-- The bitfields d_type:5, d_unused:2 and d_casefold:1 of byte 8, d_type lowest,
-- each assigned in turn.
def direntSetTypeBits (b type : UInt8) (cfNameLen : Nat) : UInt8 :=
  let b := (b &&& ~~~(31 : UInt8)) ||| (type &&& 31)
  let b := b &&& ~~~((3 : UInt8) <<< 5)
  (b &&& ~~~((1 : UInt8) <<< 7)) ||| ((if cfNameLen ≠ 0 then (1 : UInt8) else 0) <<< 7)

-- dirent_alloc_key; `garbage` is what the bytes bch2_trans_kmalloc returns held.
def direntAllocKey (garbage : Nat → UInt8) (dir : SubvolInum) (type : UInt8) (nameLen cfNameLen : Nat)
    (dst : UInt64) : Except DirentKeyErr BkeyIDirent := do
  let u64s := BKEY_U64s.toNat + direntValU64s nameLen cfNameLen
  if u64s > 255 then throw .bugOn
  let v := (List.range (8 * direntValU64s nameLen cfNameLen)).map garbage
  -- bkey_dirent_init
  let v ← withinValue (memset v 0 0 direntValSize)
  let v ← direntStoreTarget v dir type dst
  let v ← withinValue (memcpy v 8 [direntSetTypeBits (v.getD 8 0) type cfNameLen])
  return ⟨u64s,POS_MIN,v⟩

def direntInitRegularName (k : BkeyIDirent) (name : List UInt8) : Except DirentKeyErr BkeyIDirent := do
  let v ← withinValue (memcpy k.v direntNameOffset name)
  let v ← withinValue (memset v (direntNameOffset + name.length) 0 (bkeyValBytes k - direntNameOffset - name.length))
  return {k with v := v}

def direntInitCasefoldedName (k : BkeyIDirent) (name cfName : List UInt8) : Except DirentKeyErr BkeyIDirent := do
  let v ← withinValue (storeLE k.v 10 2 name.length)
  let v ← withinValue (storeLE v 12 2 cfName.length)
  let v ← withinValue (memcpy v direntCfNamesOffset name)
  let v ← withinValue (memcpy v (direntCfNamesOffset + name.length) cfName)
  let v ← withinValue (memset v (direntCfNamesOffset + name.length + cfName.length) 0
    (bkeyValBytes k - direntCfNamesOffset - name.length + cfName.length))
  return {k with v := v}

def direntCreateKey (garbage : Nat → UInt8) (dir : SubvolInum) (type : UInt8) (name : List UInt8)
    (cfName : Option (List UInt8)) (dst : UInt64) : Except DirentKeyErr BkeyIDirent := do
  if name.length > BCH_NAME_MAX then throw .enametoolong
  let k ← direntAllocKey garbage dir type name.length ((cfName.map List.length).getD 0) dst
  match cfName with
  | some cf => direntInitCasefoldedName k name cf
  | none => direntInitRegularName k name

def BkeyIDirent.dType (k : BkeyIDirent) : UInt8 := k.v.getD 8 0 &&& 31
def BkeyIDirent.dCasefold (k : BkeyIDirent) : Bool := k.v.getD 8 0 >>> 7 ≠ 0
def BkeyIDirent.dInum (k : BkeyIDirent) : Nat := loadLE k.v 0 8
def BkeyIDirent.dNameLen (k : BkeyIDirent) : Nat := loadLE k.v 10 2
def BkeyIDirent.dCfNameLen (k : BkeyIDirent) : Nat := loadLE k.v 12 2

-- __builtin_clzll of a nonzero word.
def clzll (x : Nat) : Nat := 63 - x.log2

-- bch2_dirent_name_bytes on a little-endian machine: the value's bytes past the
-- names' start, less the zero bytes closing its last word, in unsigned arithmetic.
def bch2DirentNameBytes (k : BkeyIDirent) : Nat :=
  if bkeyValBytes k < direntNameOffset then 0 else
  let bkeyU64s := k.u64s - BKEY_U64s.toNat
  let bkeyBytes := bkeyU64s * 8
  let lastU64 := loadLE k.v (8*(bkeyU64s-1)) 8
  let trailingNuls := if lastU64 ≠ 0 then clzll lastU64 / 8 else 64/8
  (((bkeyBytes : Int) - (if k.dCasefold then direntCfNamesOffset else direntNameOffset) - trailingNuls) % 2^32).toNat

def bytesAt (v : List UInt8) (off len : Nat) : List UInt8 := (v.drop off).take len

def bch2DirentGetName (k : BkeyIDirent) : Qstr :=
  if k.dCasefold then ⟨k.dNameLen,bytesAt k.v direntCfNamesOffset k.dNameLen⟩
  else ⟨bch2DirentNameBytes k,bytesAt k.v direntNameOffset (bch2DirentNameBytes k)⟩

def bch2DirentGetCasefoldName (k : BkeyIDirent) : Qstr :=
  if k.dCasefold then ⟨k.dCfNameLen,bytesAt k.v (direntCfNamesOffset + k.dNameLen) k.dCfNameLen⟩
  else ⟨0,[]⟩

def bch2DirentGetLookupName (k : BkeyIDirent) : Qstr :=
  if k.dCasefold then bch2DirentGetCasefoldName k else bch2DirentGetName k

-- The `from` of struct bkey_validate_context; its flags are BkeyValidateContext.
inductive BkeyValidateFrom where
  | unknown
  | superblock
  | journal
  | btreeRoot
  | btreeNode
  | commit
  deriving DecidableEq, Repr

-- The fsck errors of bch2_dirent_validate; the first one found is returned.
inductive DirentFsckErr where
  | direntEmptyName
  | direntValTooBig
  | direntNameTooLong
  | direntNameEmbeddedNul
  | direntNameDotOrDotdot
  | direntNameHasSlash
  | direntToItself
  | direntCfNameTooBig
  | direntStrayDataAfterCfName
  deriving DecidableEq, Repr

def direntErrOn (cond : Bool) (err : DirentFsckErr) : Except DirentFsckErr Unit :=
  if cond then .error err else .ok ()

def strnlen (s : List UInt8) (n : Nat) : Nat := ((s.take n).takeWhile (· ≠ 0)).length

def bch2DirentValidate (k : BkeyIDirent) (fromCtx : BkeyValidateFrom) (flags : BkeyValidateContext) :
    Except DirentFsckErr Unit := do
  let nameBlockLen := bch2DirentNameBytes k
  let dName := bch2DirentGetName k
  let dCfName := bch2DirentGetCasefoldName k
  direntErrOn (dName.len = 0) .direntEmptyName
  direntErrOn (dName.len + dCfName.len > nameBlockLen) .direntValTooBig
  direntErrOn (flags.commit && dName.len > BCH_NAME_MAX) .direntNameTooLong
  direntErrOn (dName.len ≠ strnlen dName.name dName.len) .direntNameEmbeddedNul
  direntErrOn ((dName.len = 1 && dName.name.take 1 = [46]) || (dName.len = 2 && dName.name.take 2 = [46,46]))
    .direntNameDotOrDotdot
  direntErrOn ((dName.name.take dName.len).contains 47) .direntNameHasSlash
  direntErrOn (k.dType ≠ DT_SUBVOL && k.dInum = k.p.inode.toNat) .direntToItself
  if k.dCasefold then
    direntErrOn (fromCtx = .commit && dCfName.len > BCH_NAME_MAX) .direntCfNameTooBig
    direntErrOn (dCfName.len ≠ strnlen dCfName.name dCfName.len) .direntStrayDataAfterCfName

section Hash
variable (strHash : List UInt8 → UInt64)

-- bch2_dirent_hash over the string hash of bch2_str_hash_init/update/end;
-- [0,2) is kept for the dots.
def bch2DirentHash (name : Qstr) : UInt64 := max (strHash name.name) 2

def direntHashKey (key : Qstr) : UInt64 := bch2DirentHash strHash key

def direntHashBkey (k : BkeyIDirent) : UInt64 := bch2DirentHash strHash (bch2DirentGetLookupName k)

end Hash

section Alloc

-- What dirent_alloc_key stores before the names: the target, and the type byte.
def direntTargetBytes (dir : SubvolInum) (type : UInt8) (dst : UInt64) : List UInt8 :=
  if type ≠ DT_SUBVOL then leBytes 8 dst.toNat else leBytes 4 dst.toNat ++ leBytes 4 dir.subvol.toNat

def direntTypeByte (type : UInt8) (casefold : Bool) : UInt8 := (type &&& 31) ||| (if casefold then (128 : UInt8) else 0)

theorem direntSetTypeBits_zero (type : UInt8) (cfNameLen : Nat) :
    direntSetTypeBits 0 type cfNameLen = direntTypeByte type (cfNameLen ≠ 0) := by
  have masks : (31 : UInt8) &&& (~~~((3 : UInt8) <<< 5) &&& ~~~((1 : UInt8) <<< 7)) = 31 := by decide
  have top : (1 : UInt8) <<< 7 = 128 := by decide
  rw [top] at masks
  by_cases none : cfNameLen = 0
  · simp [direntSetTypeBits,none,direntTypeByte,UInt8.and_assoc,top,masks]
  · simp [direntSetTypeBits,none,direntTypeByte,UInt8.and_assoc,top,masks]

theorem withinValue_some {α : Type} (a : α) : withinValue (some a) = .ok a := rfl

theorem length_direntTargetBytes (dir : SubvolInum) (type : UInt8) (dst : UInt64) :
    (direntTargetBytes dir type dst).length = 8 := by
  unfold direntTargetBytes
  split <;> simp [length_leBytes]

theorem direntValU64s_regular (len : Nat) :
    direntNameOffset + len ≤ 8 * direntValU64s len 0 ∧ 8 * direntValU64s len 0 < direntNameOffset + len + 8 ∧
      direntValSize ≤ 8 * direntValU64s len 0 := by
  simp only [direntValU64s,direntNameOffset,direntValSize,DIV_ROUND_UP,ne_eq,not_true_eq_false,if_false]
  omega

theorem direntValU64s_casefolded (len : Nat) {cfLen : Nat} (given : cfLen ≠ 0) :
    direntCfNamesOffset + len + cfLen ≤ 8 * direntValU64s len cfLen ∧
      8 * direntValU64s len cfLen < direntCfNamesOffset + len + cfLen + 8 ∧ direntValSize ≤ 8 * direntValU64s len cfLen := by
  simp only [direntValU64s,direntCfNamesOffset,direntValSize,DIV_ROUND_UP,if_pos given]
  omega

theorem direntStoreTarget_spec (dir : SubvolInum) (type : UInt8) (dst : UInt64) {v : List UInt8} (room : 9 ≤ v.length) :
    ∃ v', direntStoreTarget v dir type dst = .ok v' ∧
      v'.length = v.length ∧ v'.take 8 = direntTargetBytes dir type dst ∧ v'[8]? = v[8]? := by
  by_cases subvol : type = DT_SUBVOL
  · obtain ⟨parent,parentSet⟩ : ∃ w, storeLE v 4 4 dir.subvol.toNat = some w :=
      ⟨_,memcpy_of_le (by rw [length_leBytes]; omega)⟩
    have parentLength := length_memcpy parentSet
    obtain ⟨child,childSet⟩ : ∃ w, storeLE parent 0 4 dst.toNat = some w :=
      ⟨_,memcpy_of_le (by rw [length_leBytes]; omega)⟩
    refine ⟨child,?_,(length_memcpy childSet).trans parentLength,?_,?_⟩
    · simp only [direntStoreTarget,subvol,ne_eq,not_true_eq_false,if_false,parentSet,withinValue_some,ok_bind,childSet]
    · have parentTake := take_memcpy parentSet
      rw [length_leBytes] at parentTake
      have childTake := take_memcpy_of_ge childSet (n := 8) (by rw [length_leBytes]; omega)
      rw [length_leBytes,parentTake] at childTake
      rw [childTake,direntTargetBytes,if_neg (not_not.mpr subvol)]
      have : (v.take 4).length = 4 := by simp; omega
      simp [this]
    · rw [getElem?_memcpy_of_ge childSet (by rw [length_leBytes]; omega),
        getElem?_memcpy_of_ge parentSet (by rw [length_leBytes])]
  · obtain ⟨inum,inumSet⟩ : ∃ w, storeLE v 0 8 dst.toNat = some w := ⟨_,memcpy_of_le (by rw [length_leBytes]; omega)⟩
    refine ⟨inum,by simp only [direntStoreTarget,ne_eq,subvol,not_false_eq_true,if_true,inumSet,withinValue_some],
      length_memcpy inumSet,?_,
      getElem?_memcpy_of_ge inumSet (by rw [length_leBytes])⟩
    have inumTake := take_memcpy inumSet
    rw [length_leBytes] at inumTake
    rw [inumTake,direntTargetBytes,if_pos subvol]
    rfl

theorem direntAllocKey_spec (garbage : Nat → UInt8) (dir : SubvolInum) (type : UInt8) (len cfLen : Nat) (dst : UInt64)
    (small : BKEY_U64s.toNat + direntValU64s len cfLen ≤ 255) (room : direntValSize ≤ 8 * direntValU64s len cfLen) :
    ∃ v, direntAllocKey garbage dir type len cfLen dst = .ok ⟨BKEY_U64s.toNat + direntValU64s len cfLen,POS_MIN,v⟩ ∧
      v.length = 8 * direntValU64s len cfLen ∧ v.take 9 = direntTargetBytes dir type dst ++ [direntTypeByte type (cfLen ≠ 0)] := by
  have startLength : ((List.range (8 * direntValU64s len cfLen)).map garbage).length = 8 * direntValU64s len cfLen := by simp
  obtain ⟨cleared,clearSet⟩ : ∃ w, memset ((List.range (8 * direntValU64s len cfLen)).map garbage) 0 0 direntValSize = some w :=
    ⟨_,memcpy_of_le (by simp only [List.length_replicate,startLength]; omega)⟩
  have clearedLength := length_memcpy clearSet
  have zero8 : cleared[8]? = some 0 := by
    rw [memset_eq clearSet]
    simp [direntValSize]
  obtain ⟨target,targetSet,targetLength,targetTake,target8⟩ :=
    direntStoreTarget_spec dir type dst (v := cleared) (by simp only [direntValSize] at room; omega)
  obtain ⟨typed,typeSet⟩ : ∃ w, memcpy target 8 [direntTypeByte type (cfLen ≠ 0)] = some w :=
    ⟨_,memcpy_of_le (by simp only [direntValSize] at room; simp; omega)⟩
  refine ⟨typed,?_,(length_memcpy typeSet).trans (targetLength.trans (clearedLength.trans startLength)),?_⟩
  · have byte : target.getD 8 0 = 0 := by rw [List.getD_eq_getElem?_getD,target8,zero8]; rfl
    simp only [direntAllocKey,if_neg (Nat.not_lt.mpr small),clearSet,withinValue_some,ok_bind,targetSet,byte,
      direntSetTypeBits_zero,typeSet]
    rfl
  · have typedTake := take_memcpy typeSet
    rw [targetTake] at typedTake
    exact typedTake

end Alloc

section Regular

-- The key dirent_create_key makes for a name that is not casefolded.
def direntRegularKey (dir : SubvolInum) (type : UInt8) (name : List UInt8) (dst : UInt64) : BkeyIDirent :=
  ⟨BKEY_U64s.toNat + direntValU64s name.length 0,POS_MIN,
    direntTargetBytes dir type dst ++ [direntTypeByte type false] ++ name ++
      List.replicate (8 * direntValU64s name.length 0 - direntNameOffset - name.length) 0⟩

theorem direntCreateKey_regular (garbage : Nat → UInt8) (dir : SubvolInum) (type : UInt8) (name : List UInt8)
    (dst : UInt64) (short : name.length ≤ BCH_NAME_MAX) :
    direntCreateKey garbage dir type name none dst = .ok (direntRegularKey dir type name dst) := by
  obtain ⟨fits,below,room⟩ := direntValU64s_regular name.length
  have small : BKEY_U64s.toNat + direntValU64s name.length 0 ≤ 255 := by
    simp only [BCH_NAME_MAX] at short
    simp only [direntValU64s,direntNameOffset,DIV_ROUND_UP,ne_eq,not_true_eq_false,if_false]
    change 5 + _ ≤ 255
    omega
  obtain ⟨v,alloc,length,front⟩ := direntAllocKey_spec garbage dir type name.length 0 dst small room
  obtain ⟨named,nameSet⟩ : ∃ w, memcpy v direntNameOffset name = some w := ⟨_,memcpy_of_le (by omega)⟩
  have valBytes : bkeyValBytes ⟨BKEY_U64s.toNat + direntValU64s name.length 0,POS_MIN,v⟩ =
      8 * direntValU64s name.length 0 := by
    simp only [bkeyValBytes]
    omega
  obtain ⟨padded,padSet⟩ : ∃ w, memset named (direntNameOffset + name.length) 0
      (8 * direntValU64s name.length 0 - direntNameOffset - name.length) = some w :=
    ⟨_,memcpy_of_le (by rw [List.length_replicate,length_memcpy nameSet]; omega)⟩
  have filled := memcpy_to_end padSet (by rw [List.length_replicate,length_memcpy nameSet]; omega)
  rw [take_memcpy nameSet,show direntNameOffset = 9 from rfl,front] at filled
  simp only [direntCreateKey,if_neg (Nat.not_lt.mpr short),Option.map_none,Option.getD_none,alloc,ok_bind,
    direntInitRegularName,nameSet,withinValue_some,valBytes,padSet]
  rw [filled]
  rfl

end Regular

section NameBytes

theorem clzll_div {x : Nat} {j : Nat} (low : 8 * j ≤ x.log2) (high : x.log2 < 8 * (j + 1)) (top : j < 8) :
    clzll x / 8 = 7 - j := by
  unfold clzll
  omega

theorem bch2DirentNameBytes_of {k : BkeyIDirent} {n pad : Nat} {body : List UInt8} {c : UInt8}
    (u64s : k.u64s = BKEY_U64s.toNat + n) (value : k.v = body ++ [c] ++ List.replicate pad 0)
    (length : k.v.length = 8 * n) (top : c ≠ 0) (short : pad < 8) (few : n ≤ 255)
    (header : (if k.dCasefold then direntCfNamesOffset else direntNameOffset) ≤ body.length) :
    bch2DirentNameBytes k = 8 * n - (if k.dCasefold then direntCfNamesOffset else direntNameOffset) - pad := by
  have offsets : 9 ≤ (if k.dCasefold then direntCfNamesOffset else direntNameOffset) := by
    split <;> simp [direntCfNamesOffset,direntNameOffset]
  have bodyLength : body.length = 8 * n - 1 - pad := by
    rw [value] at length
    simp only [List.length_append,List.length_singleton,List.length_replicate] at length
    omega
  have valBytes : bkeyValBytes k = 8 * n := by simp only [bkeyValBytes,u64s]; omega
  have lastWord : loadLE k.v (8 * (n - 1)) 8 = ofLE (body.drop (8 * (n - 1)) ++ [c]) := by
    have split : k.v.drop (8 * (n - 1)) = body.drop (8 * (n - 1)) ++ [c] ++ List.replicate pad 0 := by
      rw [value,List.append_assoc,List.drop_append_of_le_length (by omega),List.append_assoc]
    have whole : (body.drop (8 * (n - 1)) ++ [c] ++ List.replicate pad 0).length ≤ 8 := by
      simp only [List.length_append,List.length_drop,List.length_singleton,List.length_replicate]
      omega
    rw [loadLE,split,List.take_of_length_le whole,ofLE_append,ofLE_replicate_zero,Nat.mul_zero,Nat.add_zero]
  have lastLength : (body.drop (8 * (n - 1))).length = 7 - pad := by rw [List.length_drop]; omega
  obtain ⟨low,high⟩ := log2_ofLE (body.drop (8 * (n - 1))) top
  rw [lastLength] at low high
  have nonzero : ofLE (body.drop (8 * (n - 1)) ++ [c]) ≠ 0 :=
    Nat.pos_iff_ne_zero.mp (Nat.lt_of_lt_of_le (Nat.pow_pos (by decide)) (ofLE_ge _ top))
  have trailing := clzll_div low high (by omega)
  unfold bch2DirentNameBytes
  rw [if_neg (by rw [valBytes,direntNameOffset]; omega)]
  simp only [u64s,Nat.add_sub_cancel_left,lastWord,nonzero,ne_eq,not_false_eq_true,if_true,trailing]
  generalize (if k.dCasefold then direntCfNamesOffset else direntNameOffset) = off at offsets header ⊢
  have exact : ((n * 8 : Nat) : Int) - off - ((7 - (7 - pad) : Nat) : Int) = ((8 * n - off - pad : Nat) : Int) := by
    omega
  rw [exact,Int.emod_eq_of_lt (by omega) (by omega),Int.toNat_natCast]

end NameBytes

section RegularKey
variable (dir : SubvolInum) (type : UInt8) (name : List UInt8) (dst : UInt64)

theorem length_direntRegularKey : (direntRegularKey dir type name dst).v.length = 8 * direntValU64s name.length 0 := by
  have := (direntValU64s_regular name.length).1
  simp only [direntRegularKey,List.length_append,length_direntTargetBytes,List.length_singleton,List.length_replicate]
  simp only [direntNameOffset] at this ⊢
  omega

theorem typeByte_direntRegularKey : (direntRegularKey dir type name dst).v.getD 8 0 = type &&& 31 := by
  simp only [direntRegularKey,List.getD_eq_getElem?_getD,List.append_assoc]
  rw [List.getElem?_append_right (by rw [length_direntTargetBytes]),length_direntTargetBytes]
  simp [direntTypeByte]

theorem dCasefold_direntRegularKey : (direntRegularKey dir type name dst).dCasefold = false := by
  have low : (type &&& 31).toNat < 128 := by
    rw [UInt8.toNat_and]
    exact Nat.lt_of_le_of_lt Nat.and_le_right (by decide)
  simp only [BkeyIDirent.dCasefold,typeByte_direntRegularKey,ne_eq,decide_eq_false_iff_not,not_not]
  rw [← UInt8.toNat_inj,UInt8.toNat_shiftRight,UInt8.toNat_zero]
  change (type &&& 31).toNat >>> 7 = 0
  rw [Nat.shiftRight_eq_div_pow]
  omega

theorem dType_direntRegularKey : (direntRegularKey dir type name dst).dType = type &&& 31 := by
  rw [BkeyIDirent.dType,typeByte_direntRegularKey,UInt8.and_assoc]
  rfl

theorem dInum_direntRegularKey : (direntRegularKey dir type name dst).dInum = ofLE (direntTargetBytes dir type dst) := by
  simp only [BkeyIDirent.dInum,loadLE,List.drop_zero,direntRegularKey,List.append_assoc]
  rw [List.take_append_of_le_length (by rw [length_direntTargetBytes]),
    List.take_of_length_le (by rw [length_direntTargetBytes])]

theorem ofLE_direntTargetBytes (notSubvol : type ≠ DT_SUBVOL) : ofLE (direntTargetBytes dir type dst) = dst.toNat := by
  rw [direntTargetBytes,if_pos notSubvol,ofLE_leBytes]
  exact Nat.mod_eq_of_lt dst.toNat_lt

theorem nameBytes_direntRegularKey (nonempty : name ≠ []) (noNul : 0 ∉ name) (short : name.length ≤ BCH_NAME_MAX) :
    bch2DirentNameBytes (direntRegularKey dir type name dst) = name.length := by
  obtain ⟨fits,below,room⟩ := direntValU64s_regular name.length
  have top : name.getLast nonempty ≠ 0 := fun zero => noNul (zero ▸ List.getLast_mem nonempty)
  have value : (direntRegularKey dir type name dst).v =
      (direntTargetBytes dir type dst ++ [direntTypeByte type false] ++ name.dropLast) ++ [name.getLast nonempty] ++
        List.replicate (8 * direntValU64s name.length 0 - direntNameOffset - name.length) 0 := by
    simp only [direntRegularKey,List.append_assoc,List.dropLast_append_getLast nonempty]
  have positive : 0 < name.length := List.length_pos_iff.mpr nonempty
  have bodyLength : (direntTargetBytes dir type dst ++ [direntTypeByte type false] ++ name.dropLast).length =
      8 + name.length := by
    simp only [List.length_append,length_direntTargetBytes,List.length_singleton,List.length_dropLast]
    omega
  have few : direntValU64s name.length 0 ≤ 255 := by
    simp only [BCH_NAME_MAX] at short
    simp only [direntNameOffset] at below
    omega
  rw [bch2DirentNameBytes_of (n := direntValU64s name.length 0) rfl value (length_direntRegularKey dir type name dst) top
    (by simp only [direntNameOffset] at fits below ⊢; omega) few
    (by rw [dCasefold_direntRegularKey,bodyLength]; simp [direntNameOffset]; omega),dCasefold_direntRegularKey]
  simp only [Bool.false_eq_true,if_false,direntNameOffset] at fits ⊢
  omega

theorem bytesAt_direntRegularKey : bytesAt (direntRegularKey dir type name dst).v direntNameOffset name.length = name := by
  have front : (direntTargetBytes dir type dst ++ [direntTypeByte type false]).length = direntNameOffset := by
    simp [length_direntTargetBytes,direntNameOffset]
  rw [bytesAt,direntRegularKey,List.append_assoc,← front,List.drop_left,List.take_left]

theorem getName_direntRegularKey (nonempty : name ≠ []) (noNul : 0 ∉ name) (short : name.length ≤ BCH_NAME_MAX) :
    bch2DirentGetName (direntRegularKey dir type name dst) = ⟨name.length,name⟩ := by
  rw [bch2DirentGetName,dCasefold_direntRegularKey,if_neg Bool.false_ne_true,
    nameBytes_direntRegularKey dir type name dst nonempty noNul short,bytesAt_direntRegularKey]

theorem getLookupName_direntRegularKey (nonempty : name ≠ []) (noNul : 0 ∉ name) (short : name.length ≤ BCH_NAME_MAX) :
    bch2DirentGetLookupName (direntRegularKey dir type name dst) = ⟨name.length,name⟩ := by
  rw [bch2DirentGetLookupName,dCasefold_direntRegularKey,if_neg Bool.false_ne_true,
    getName_direntRegularKey dir type name dst nonempty noNul short]

theorem getCasefoldName_direntRegularKey : bch2DirentGetCasefoldName (direntRegularKey dir type name dst) = ⟨0,[]⟩ := by
  rw [bch2DirentGetCasefoldName,dCasefold_direntRegularKey,if_neg Bool.false_ne_true]

theorem strnlen_of_no_nul {s : List UInt8} (noNul : 0 ∉ s) : strnlen s s.length = s.length := by
  have nonzero : ∀ b ∈ s, decide (b ≠ 0) = true := by
    intro b mem
    exact decide_eq_true fun zero => noNul (zero ▸ mem)
  rw [strnlen,List.take_length,List.takeWhile_eq_self_iff.mpr nonzero]

-- The key of a regular name passes bch2_dirent_validate, from any context, unless
-- it is a plain entry whose target is 0: the key's own inode until the caller
-- sets its position.
theorem validate_direntRegularKey (nonempty : name ≠ []) (noNul : 0 ∉ name) (noSlash : 47 ∉ name)
    (notDot : name ≠ [46]) (notDotDot : name ≠ [46,46]) (short : name.length ≤ BCH_NAME_MAX)
    (target : type &&& 31 = DT_SUBVOL ∨ dst ≠ 0) (fromCtx : BkeyValidateFrom) (flags : BkeyValidateContext) :
    bch2DirentValidate (direntRegularKey dir type name dst) fromCtx flags = .ok () := by
  have positive : name.length ≠ 0 := (List.length_pos_iff.mpr nonempty).ne'
  have dots : ¬ ((name.length = 1 ∧ name.take 1 = [46]) ∨ (name.length = 2 ∧ name.take 2 = [46,46])) := by
    rintro (⟨one,first⟩ | ⟨two,firstTwo⟩)
    · exact notDot (by rwa [← one,List.take_length] at first)
    · exact notDotDot (by rwa [← two,List.take_length] at firstTwo)
  have itself : ¬ ((direntRegularKey dir type name dst).dType ≠ DT_SUBVOL ∧
      (direntRegularKey dir type name dst).dInum = (direntRegularKey dir type name dst).p.inode.toNat) := by
    rintro ⟨plain,pointsHome⟩
    rw [dType_direntRegularKey] at plain
    have notSubvol : type ≠ DT_SUBVOL := fun subvol => plain (by rw [subvol]; rfl)
    rw [dInum_direntRegularKey,ofLE_direntTargetBytes dir type dst notSubvol] at pointsHome
    rcases target with subvol | nonzero
    · exact plain subvol
    · exact nonzero (UInt64.toNat_inj.mp (by simpa [direntRegularKey,POS_MIN] using pointsHome))
  unfold bch2DirentValidate
  simp only [getName_direntRegularKey dir type name dst nonempty noNul short,getCasefoldName_direntRegularKey,
    nameBytes_direntRegularKey dir type name dst nonempty noNul short,dCasefold_direntRegularKey,
    strnlen_of_no_nul noNul,List.take_length]
  have dotsBool : (decide (name.length = 1) && decide (name.take 1 = [46]) ||
      decide (name.length = 2) && decide (name.take 2 = [46,46])) = false := by
    simpa only [Bool.or_eq_false_iff,Bool.and_eq_false_iff,decide_eq_false_iff_not,not_or,not_and_or] using dots
  have itselfBool : (decide ((direntRegularKey dir type name dst).dType ≠ DT_SUBVOL) &&
      decide ((direntRegularKey dir type name dst).dInum = (direntRegularKey dir type name dst).p.inode.toNat)) = false := by
    simpa only [Bool.and_eq_false_iff,decide_eq_false_iff_not,not_and_or] using itself
  have slash : name.contains 47 = false := by simpa using noSlash
  have long : decide (name.length > BCH_NAME_MAX) = false := decide_eq_false (Nat.not_lt.mpr short)
  simp only [decide_eq_false positive,Nat.add_zero,gt_iff_lt,Nat.lt_irrefl,decide_false,long,Bool.and_false,
    ne_eq,not_true_eq_false,dotsBool,slash,itselfBool,Bool.false_eq_true,if_false,direntErrOn]
  rfl

theorem direntHashBkey_direntRegularKey (strHash : List UInt8 → UInt64) (nonempty : name ≠ []) (noNul : 0 ∉ name)
    (short : name.length ≤ BCH_NAME_MAX) :
    direntHashBkey strHash (direntRegularKey dir type name dst) = direntHashKey strHash ⟨name.length,name⟩ := by
  rw [direntHashBkey,getLookupName_direntRegularKey dir type name dst nonempty noNul short,direntHashKey]

end RegularKey

theorem two_le_bch2DirentHash (strHash : List UInt8 → UInt64) (name : Qstr) : 2 ≤ bch2DirentHash strHash name := by
  rw [bch2DirentHash,UInt64.le_iff_toNat_le,UInt64.toNat_max]
  exact Nat.le_max_right _ _

theorem direntCreateKey_regular_spec (garbage : Nat → UInt8) (dir : SubvolInum) (type : UInt8) (name : List UInt8)
    (dst : UInt64) (nonempty : name ≠ []) (short : name.length ≤ BCH_NAME_MAX) (noNul : 0 ∉ name)
    (noSlash : 47 ∉ name) (notDot : name ≠ [46]) (notDotDot : name ≠ [46,46]) :
    ∃ k, direntCreateKey garbage dir type name none dst = .ok k ∧
      k.v.length = bkeyValBytes k ∧ bkeyValBytes k = 8 * direntValU64s name.length 0 ∧
      (∀ i, direntNameOffset + name.length ≤ i → i < k.v.length → k.v[i]? = some 0) ∧
      bch2DirentGetName k = ⟨name.length,name⟩ ∧ bch2DirentGetLookupName k = ⟨name.length,name⟩ ∧
      ((type &&& 31 = DT_SUBVOL ∨ dst ≠ 0) → ∀ fromCtx flags, bch2DirentValidate k fromCtx flags = .ok ()) ∧
      ∀ strHash, direntHashBkey strHash k = direntHashKey strHash ⟨name.length,name⟩ ∧ 2 ≤ direntHashBkey strHash k := by
  have length := length_direntRegularKey dir type name dst
  have valBytes : bkeyValBytes (direntRegularKey dir type name dst) = 8 * direntValU64s name.length 0 := by
    simp only [bkeyValBytes,direntRegularKey]
    omega
  refine ⟨direntRegularKey dir type name dst,direntCreateKey_regular garbage dir type name dst short,
    length.trans valBytes.symm,valBytes,fun i after inside => ?_,
    getName_direntRegularKey dir type name dst nonempty noNul short,
    getLookupName_direntRegularKey dir type name dst nonempty noNul short,
    fun target fromCtx flags =>
      validate_direntRegularKey dir type name dst nonempty noNul noSlash notDot notDotDot short target fromCtx flags,
    fun strHash => ⟨direntHashBkey_direntRegularKey dir type name dst strHash nonempty noNul short,
      two_le_bch2DirentHash strHash _⟩⟩
  have front : (direntTargetBytes dir type dst ++ [direntTypeByte type false] ++ name).length =
      direntNameOffset + name.length := by
    simp [length_direntTargetBytes,direntNameOffset]
    omega
  simp only [direntRegularKey] at inside ⊢
  rw [List.getElem?_append_right (by omega),front,List.getElem?_replicate]
  rw [List.length_append,front,List.length_replicate] at inside
  rw [if_pos (by omega)]

-- dirent_init_casefolded_name adds cf_name->len to the zero fill's length where
-- it should take it off, so the fill ends 2 * cf_name->len bytes past the value:
-- dirent_create_key never makes a casefolded key inside its allocation. The
-- same name without a casefolded one gets a key as direntCreateKey_regular_spec
-- describes it.
theorem dirent_create_key_casefolded_overruns (garbage : Nat → UInt8) (dir : SubvolInum) (type : UInt8)
    (name cf : List UInt8) (dst : UInt64) (short : name.length ≤ BCH_NAME_MAX) (given : cf ≠ [])
    (cfShort : cf.length ≤ BCH_NAME_MAX) :
    direntCfNamesOffset + name.length + cf.length +
        (8 * direntValU64s name.length cf.length - direntCfNamesOffset - name.length + cf.length) =
      8 * direntValU64s name.length cf.length + 2 * cf.length ∧
    direntCreateKey garbage dir type name (some cf) dst = .error .valueOverrun ∧
    (name ≠ [] → 0 ∉ name → 47 ∉ name → name ≠ [46] → name ≠ [46,46] →
      ∃ k, direntCreateKey garbage dir type name none dst = .ok k ∧
        k.v.length = bkeyValBytes k ∧ bkeyValBytes k = 8 * direntValU64s name.length 0 ∧
        (∀ i, direntNameOffset + name.length ≤ i → i < k.v.length → k.v[i]? = some 0) ∧
        bch2DirentGetName k = ⟨name.length,name⟩ ∧ bch2DirentGetLookupName k = ⟨name.length,name⟩ ∧
        ((type &&& 31 = DT_SUBVOL ∨ dst ≠ 0) → ∀ fromCtx flags, bch2DirentValidate k fromCtx flags = .ok ()) ∧
        ∀ strHash, direntHashBkey strHash k = direntHashKey strHash ⟨name.length,name⟩ ∧
          2 ≤ direntHashBkey strHash k) := by
  have regular := fun nonempty noNul noSlash notDot notDotDot =>
    direntCreateKey_regular_spec garbage dir type name dst nonempty short noNul noSlash notDot notDotDot
  have cfLength : cf.length ≠ 0 := (List.length_pos_iff.mpr given).ne'
  obtain ⟨fits,below,room⟩ := direntValU64s_casefolded name.length cfLength
  simp only [direntCfNamesOffset,direntValSize] at fits below room
  have shortNat : name.length ≤ 512 := short
  have cfShortNat : cf.length ≤ 512 := cfShort
  have small : BKEY_U64s.toNat + direntValU64s name.length cf.length ≤ 255 := by
    change 5 + _ ≤ 255
    omega
  refine ⟨by simp only [direntCfNamesOffset]; omega,?_,regular⟩
  obtain ⟨v,alloc,length,-⟩ := direntAllocKey_spec garbage dir type name.length cf.length dst small
    (by simp only [direntValSize]; omega)
  obtain ⟨nameLen,nameLenSet⟩ : ∃ w, storeLE v 10 2 name.length = some w :=
    ⟨_,memcpy_of_le (by rw [length_leBytes]; omega)⟩
  have length1 := length_memcpy nameLenSet
  obtain ⟨cfLen,cfLenSet⟩ : ∃ w, storeLE nameLen 12 2 cf.length = some w :=
    ⟨_,memcpy_of_le (by rw [length_leBytes]; omega)⟩
  have length2 := length_memcpy cfLenSet
  obtain ⟨named,nameSet⟩ : ∃ w, memcpy cfLen direntCfNamesOffset name = some w :=
    ⟨_,memcpy_of_le (by simp only [direntCfNamesOffset]; omega)⟩
  have length3 := length_memcpy nameSet
  obtain ⟨folded,cfSet⟩ : ∃ w, memcpy named (direntCfNamesOffset + name.length) cf = some w :=
    ⟨_,memcpy_of_le (by simp only [direntCfNamesOffset]; omega)⟩
  have length4 := length_memcpy cfSet
  have valBytes : bkeyValBytes ⟨BKEY_U64s.toNat + direntValU64s name.length cf.length,POS_MIN,v⟩ =
      8 * direntValU64s name.length cf.length := by
    simp only [bkeyValBytes]
    omega
  have overrun : memset folded (direntCfNamesOffset + name.length + cf.length) 0
      (8 * direntValU64s name.length cf.length - direntCfNamesOffset - name.length + cf.length) = none :=
    memcpy_of_lt (by rw [List.length_replicate]; simp only [direntCfNamesOffset]; omega)
  simp only [direntCreateKey,if_neg (Nat.not_lt.mpr short),Option.map_some,Option.getD_some,alloc,ok_bind,
    direntInitCasefoldedName,nameLenSet,cfLenSet,nameSet,cfSet,withinValue_some,valBytes,overrun]
  rfl

theorem dirent_casefolded_name_overruns_example :
    ([97] : List UInt8).length ≤ BCH_NAME_MAX ∧ ([97] : List UInt8) ≠ [] ∧ ([97] : List UInt8).length ≤ BCH_NAME_MAX ∧
    (direntCfNamesOffset + 1 + 1 + (8 * direntValU64s 1 1 - direntCfNamesOffset - 1 + 1) = 8 * direntValU64s 1 1 + 2 * 1 ∧
      direntCreateKey (fun _ => 170) ⟨1,4096⟩ 8 [97] (some [97]) 4097 = .error .valueOverrun ∧
      ∃ k, direntCreateKey (fun _ => 170) ⟨1,4096⟩ 8 [97] none 4097 = .ok k ∧
        k.v.length = bkeyValBytes k ∧ bkeyValBytes k = 8 * direntValU64s 1 0 ∧
        (∀ i, direntNameOffset + 1 ≤ i → i < k.v.length → k.v[i]? = some 0) ∧
        bch2DirentGetName k = ⟨1,[97]⟩ ∧ bch2DirentGetLookupName k = ⟨1,[97]⟩ ∧
        ((8 &&& 31 = DT_SUBVOL ∨ (4097 : UInt64) ≠ 0) → ∀ fromCtx flags, bch2DirentValidate k fromCtx flags = .ok ()) ∧
        ∀ strHash, direntHashBkey strHash k = direntHashKey strHash ⟨1,[97]⟩ ∧ 2 ≤ direntHashBkey strHash k) := by
  obtain ⟨fill,overrun,regular⟩ :=
    dirent_create_key_casefolded_overruns (fun _ => 170) ⟨1,4096⟩ 8 [97] [97] 4097 (by decide) (by decide) (by decide)
  exact ⟨by decide,by decide,by decide,fill,overrun,regular (by decide) (by decide) (by decide) (by decide) (by decide)⟩

end Bcachefs
