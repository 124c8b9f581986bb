import Bcachefs.Bkey.Pack

namespace Bcachefs
open WordStream

-- The fields of struct btree the key comparisons read.
structure Btree where
  format : BkeyFormat
  nrKeyBits : Nat

-- bkey_packed(): every format but KEY_FORMAT_CURRENT is the node's packed format.
def bkeyPacked (k : BkeyPacked) : Bool := k.format ≠ KEY_FORMAT_CURRENT

-- The cast `(struct bkey *) k` of an unpacked key. struct bkey is itself a key in
-- BKEY_FORMAT_CURRENT, the format bch2_bkey_pack_test reads a struct bkey with.
def bkeyOfPacked (k : BkeyPacked) : Bkey := rawBch2BkeyUnpackKey bch2BkeyFormatCurrent k

-- __bkey_unpack_pos: the first three get_inc_field calls of the key unpack.
def rawBkeyUnpackPos (format : BkeyFormat) (inKey : BkeyPacked) : Bpos :=
  let inode := getIncField format inKey (unpackStateInit inKey) .inode
  let offset := getIncField format inKey inode.2 .offset
  let snapshot := getIncField format inKey offset.2 .snapshot
  ⟨inode.1,offset.1,snapshot.1.toUInt32⟩

def bkeyUnpackPos (b : Btree) (k : BkeyPacked) : Bpos :=
  if bkeyPacked k then rawBkeyUnpackPos b.format k else (bkeyOfPacked k).p

-- The loop of __bkey_cmp_bits (the C version; high_bit_offset is 0, so the first
-- words are not masked): whole words are compared while 64 or more key bits are
-- left, and the last partial word is shifted down to its key bits.
def bkeyCmpBitsLoop (l r : List UInt64) (p : Nat) (lv rv : UInt64) (nrKeyBits : Nat) : Ordering :=
  if nrKeyBits < 64 then cmpInt (lv >>> UInt64.ofNat (64-nrKeyBits)) (rv >>> UInt64.ofNat (64-nrKeyBits))
  else if nrKeyBits-64 = 0 ∨ lv ≠ rv then cmpInt lv rv
  else bkeyCmpBitsLoop l r (p+1) (l.getD (p+1) 0) (r.getD (p+1) 0) (nrKeyBits-64)
termination_by nrKeyBits

def rawBkeyCmpBits (l r : List UInt64) (nrKeyBits : Nat) : Ordering :=
  if nrKeyBits = 0 then .eq else bkeyCmpBitsLoop l r 0 (l.getD 0 0) (r.getD 0 0) nrKeyBits

def rawBch2BkeyCmpPackedFormatChecked (l r : BkeyPacked) (b : Btree) : Ordering :=
  rawBkeyCmpBits l.words r.words b.nrKeyBits

-- bch2_bkey_cmp_packed: a packed operand is unpacked into `unpacked` first when
-- the other one is not packed.
def bch2BkeyCmpPacked (b : Btree) (l r : BkeyPacked) : Ordering :=
  if bkeyPacked l && bkeyPacked r then rawBch2BkeyCmpPackedFormatChecked l r b
  else if bkeyPacked l then bposCmp (rawBch2BkeyUnpackKey b.format l).p (bkeyOfPacked r).p
  else if bkeyPacked r then bposCmp (bkeyOfPacked l).p (rawBch2BkeyUnpackKey b.format r).p
  else bposCmp (bkeyOfPacked l).p (bkeyOfPacked r).p

theorem bkeyCmpBitsLoop_spec {l r : List UInt64} (same : l.length = r.length) :
    ∀ n p, 0 < n → 64*p + n ≤ 64*l.length →
      bkeyCmpBitsLoop l r p (l.getD p 0) (r.getD p 0) n =
        compare (window (value l) (64*l.length-64*p-n) n) (window (value r) (64*l.length-64*p-n) n) := by
  intro n
  induction n using Nat.strong_induction_on with
  | _ n ih =>
    intro p positive bound
    have insideL : p < l.length := by omega
    have insideR : p < r.length := by omega
    rw [bkeyCmpBitsLoop]
    by_cases last : n < 64
    · -- the last word: its top `n` bits
      rw [if_pos last,cmpInt,compare_uint64,toNat_shiftRight_lt _ (by omega),toNat_shiftRight_lt _ (by omega)]
      have position : 64*l.length-64*p-n = 64*(l.length-p)-n := by omega
      rw [position,window_value_top l insideL (by omega),same,window_value_top r insideR (by omega)]
    · rw [if_neg last]
      obtain ⟨m, rfl⟩ : ∃ m, n = 64 + m := ⟨n-64, by omega⟩
      rw [Nat.add_sub_cancel_left]
      -- the window is this word above the remaining `m` bits
      have split : ∀ ws : List UInt64, ws.length = l.length → p < ws.length →
          window (value ws) (64*l.length-64*p-(64+m)) (64+m) =
            (ws.getD p 0).toNat * 2^m + window (value ws) (64*l.length-64*p-(64+m)) m := by
        intro ws length inside
        have top : 64*l.length-64*p-(64+m) + m = 64*(ws.length-p)-64 := by omega
        rw [window_add,top,window_value_top ws inside (Nat.le_refl _)]
        simp
      rw [split l rfl insideL,split r same.symm insideR,compare_mul_add _ (window_lt _ _ _) (window_lt _ _ _)]
      by_cases stop : m = 0 ∨ l.getD p 0 ≠ r.getD p 0
      · rw [if_pos stop,cmpInt,compare_uint64]
        rcases stop with whole | differ
        · subst whole
          rw [window_zero,window_zero,Nat.compare_eq_eq.mpr rfl,Ordering.then_eq]
        · have unequal : compare (l.getD p 0).toNat (r.getD p 0).toNat ≠ .eq := by
            rw [Ne,Nat.compare_eq_eq,UInt64.toNat_inj]; exact differ
          cases h : compare (l.getD p 0).toNat (r.getD p 0).toNat
          · rfl
          · exact absurd h unequal
          · rfl
      · rw [if_neg stop]
        obtain ⟨more,equal⟩ : m ≠ 0 ∧ l.getD p 0 = r.getD p 0 := by
          simp only [not_or,not_not] at stop; exact stop
        rw [ih m (by omega) (p+1) (by omega) (by omega),equal,Nat.compare_eq_eq.mpr rfl,Ordering.eq_then]
        have position : 64*l.length-64*(p+1)-m = 64*l.length-64*p-(64+m) := by omega
        rw [position]

theorem rawBkeyCmpBits_spec {l r : List UInt64} (same : l.length = r.length) {n : Nat}
    (bound : n ≤ 64*l.length) :
    rawBkeyCmpBits l r n = compare (window (value l) (64*l.length-n) n) (window (value r) (64*l.length-n) n) := by
  unfold rawBkeyCmpBits
  split
  · rename_i zero
    subst zero
    rw [window_zero,window_zero]; rfl
  · have loop := bkeyCmpBitsLoop_spec same n 0 (by omega) (by omega)
    simpa using loop

theorem rawBkeyUnpackPos_eq (format : BkeyFormat) (inKey : BkeyPacked) :
    rawBkeyUnpackPos format inKey = (rawBch2BkeyUnpackKey format inKey).p := by
  simp [rawBkeyUnpackPos,rawBch2BkeyUnpackKey,bkeyFields,Bkey.setField]

-- The fields of bpos, the first bkey_format_key_bits() bits of a packed key.
def posFields : List BchBkeyFields := [.inode,.offset,.snapshot]

theorem widthSum_posFields (format : BkeyFormat) (k : Bkey) :
    widthSum (packedFields format k posFields) = bkeyFormatKeyBits format := by
  simp [widthSum_packedFields,posFields,bkeyFormatKeyBits,Nat.add_assoc]

theorem compare_packed_field {format : BkeyFormat} {kl kr : Bkey} {field : BchBkeyFields}
    (inL : InRange format kl field) (inR : InRange format kr field) :
    compare (kl.field field - format.fieldOffset field).toNat (kr.field field - format.fieldOffset field).toNat =
      compare (kl.field field) (kr.field field) := by
  rw [UInt64.toNat_sub_of_le _ _ inL.1,UInt64.toNat_sub_of_le _ _ inR.1,
    compare_sub_right (UInt64.le_iff_toNat_le.mp inL.1) (UInt64.le_iff_toNat_le.mp inR.1),compare_uint64]

theorem compare_packed_pos {format : BkeyFormat} {kl kr : Bkey} (inL : ∀ field, InRange format kl field)
    (inR : ∀ field, InRange format kr field) :
    compare (layout (packedFields format kl posFields)) (layout (packedFields format kr posFields)) =
      bposCmp kl.p kr.p := by
  change compare (layout ([] ++ [_] ++ [_] ++ [_])) (layout ([] ++ [_] ++ [_] ++ [_])) = _
  rw [compare_layout_append_field _ _ (inL _).2 (inR _).2,compare_layout_append_field _ _ (inL _).2 (inR _).2,
    compare_layout_append_field _ _ (inL _).2 (inR _).2,compare_packed_field (inL _) (inR _),
    compare_packed_field (inL _) (inR _),compare_packed_field (inL _) (inR _)]
  have snapshot : compare (kl.field .snapshot) (kr.field .snapshot) = compare kl.p.snapshot kr.p.snapshot := by
    rw [compare_uint64,compare_uint32]
    simp [Bkey.field]
  rw [snapshot,bposCmp,cmpInt,cmpInt,cmpInt,Ordering.then_assoc]
  rfl

-- A position as one number, most significant field first.
def bposRank (p : Bpos) : Nat := (p.inode.toNat * 2^64 + p.offset.toNat) * 2^32 + p.snapshot.toNat

theorem bposCmp_eq_compare (l r : Bpos) : bposCmp l r = compare (bposRank l) (bposRank r) := by
  rw [bposRank,bposRank,compare_mul_add _ (UInt32.toNat_lt _) (UInt32.toNat_lt _),
    compare_mul_add _ (UInt64.toNat_lt _) (UInt64.toNat_lt _),bposCmp,cmpInt,cmpInt,cmpInt,compare_uint64,
    compare_uint64,compare_uint32,Ordering.then_assoc]

theorem bposRank_lt (p : Bpos) : bposRank p < 2^160 := by
  have := p.inode.toNat_lt
  have := p.offset.toNat_lt
  have := p.snapshot.toNat_lt
  unfold bposRank
  omega

theorem bposRank_inj : Function.Injective bposRank := by
  intro l r same
  have cmp : bposCmp l r = .eq := by rw [bposCmp_eq_compare,same]; exact compare_eq_iff_eq.mpr rfl
  simp only [bposCmp,cmpInt,Ordering.then_eq_eq] at cmp
  obtain ⟨inode,offset,snapshot⟩ := cmp
  cases l
  cases r
  simp_all

theorem window_key_bits {format : BkeyFormat} {k : Bkey} {packed : BkeyPacked}
    (spells : PackedSpells format k packed) :
    window (value packed.words) (64*packed.words.length - bkeyFormatKeyBits format) (bkeyFormatKeyBits format) =
      layout (packedFields format k posFields) := by
  have split : bkeyFields = posFields ++ [.size,.versionHi,.versionLo] := rfl
  have fitsWords := spells.fitsWords
  rw [spells.spelled,split,packedFields_append,← widthSum_posFields format k]
  rw [split,packedFields_append,widthSum_append] at fitsWords
  have position : 64*packed.words.length - widthSum (packedFields format k posFields) =
      widthSum (packedFields format k [.size,.versionHi,.versionLo]) +
        (64*packed.words.length - widthSum (packedFields format k posFields ++
          packedFields format k [.size,.versionHi,.versionLo])) := by
    rw [widthSum_append]; omega
  rw [position,window_layout_high _ _ _ (fits_packedFields spells.inRange _) (fits_packedFields spells.inRange _)]

theorem rawBkeyCmpBits_packed {format : BkeyFormat} {kl kr : Bkey} {l r : BkeyPacked}
    (spellsL : PackedSpells format kl l) (spellsR : PackedSpells format kr r) :
    rawBkeyCmpBits l.words r.words (bkeyFormatKeyBits format) = bposCmp kl.p kr.p := by
  have same : l.words.length = r.words.length := spellsL.length.trans spellsR.length.symm
  have bound : bkeyFormatKeyBits format ≤ 64*l.words.length := by
    have fitsWords := spellsL.fitsWords
    rw [← widthSum_posFields format kl]
    have split : bkeyFields = posFields ++ [.size,.versionHi,.versionLo] := rfl
    rw [split,packedFields_append,widthSum_append] at fitsWords
    omega
  rw [rawBkeyCmpBits_spec same bound,window_key_bits spellsL,same,window_key_bits spellsR]
  exact compare_packed_pos spellsL.inRange spellsR.inRange

-- A key that a successful bch2_bkey_pack_key in `format` produced.
def PackedWith (format : BkeyFormat) (k : BkeyPacked) : Prop :=
  ∃ (out : BkeyPacked) (key : Bkey), out.words.length = format.keyU64s.toNat ∧ bch2BkeyPackKey out key format = some k

theorem packedWith_spells {format : BkeyFormat} {k : BkeyPacked} (valid : bch2BkeyFormatInvalid format = .ok ())
    (packedWith : PackedWith format k) :
    ∃ key, PackedSpells format key k ∧ rawBkeyUnpackPos format k = key.p := by
  obtain ⟨out,key,room,pack⟩ := packedWith
  have spells := bch2BkeyPackKey_spells valid room pack
  exact ⟨key,spells,by rw [rawBkeyUnpackPos_eq]; exact (unpack_spelled (format_valid_facts valid).1 spells).1⟩

theorem rawBkeyCmpBits_packedWith {format : BkeyFormat} {l r : BkeyPacked}
    (valid : bch2BkeyFormatInvalid format = .ok ()) (packedL : PackedWith format l) (packedR : PackedWith format r) :
    rawBkeyCmpBits l.words r.words (bkeyFormatKeyBits format) =
      bposCmp (rawBkeyUnpackPos format l) (rawBkeyUnpackPos format r) := by
  obtain ⟨kl,spellsL,posL⟩ := packedWith_spells valid packedL
  obtain ⟨kr,spellsR,posR⟩ := packedWith_spells valid packedR
  rw [posL,posR]
  exact rawBkeyCmpBits_packed spellsL spellsR

theorem bch2BkeyCmpPacked_pos {format : BkeyFormat} (valid : bch2BkeyFormatInvalid format = .ok ()) (b : Btree)
    (btreeFormat : b.format = format) (keyBits : b.nrKeyBits = bkeyFormatKeyBits format) {l r : BkeyPacked}
    (operandL : PackedWith format l ∨ l.format = KEY_FORMAT_CURRENT)
    (operandR : PackedWith format r ∨ r.format = KEY_FORMAT_CURRENT) :
    bch2BkeyCmpPacked b l r = bposCmp (bkeyUnpackPos b l) (bkeyUnpackPos b r) := by
  unfold bch2BkeyCmpPacked bkeyUnpackPos
  -- only two packed operands take the word compare; a packed one beside an
  -- unpacked one is unpacked whole, which reads the same position
  by_cases packedL : bkeyPacked l <;> by_cases packedR : bkeyPacked r
  · have withL := operandL.resolve_right (by simpa [bkeyPacked] using packedL)
    have withR := operandR.resolve_right (by simpa [bkeyPacked] using packedR)
    simp only [packedL,packedR,Bool.and_self,if_true]
    rw [rawBch2BkeyCmpPackedFormatChecked,keyBits,btreeFormat]
    exact rawBkeyCmpBits_packedWith valid withL withR
  all_goals simp [packedL,packedR,rawBkeyUnpackPos_eq]

theorem bkey_cmp_packed_eq_bpos_cmp (format : BkeyFormat) (valid : bch2BkeyFormatInvalid format = .ok ()) :
    (∀ l r, PackedWith format l → PackedWith format r →
      rawBkeyCmpBits l.words r.words (bkeyFormatKeyBits format) =
        bposCmp (rawBkeyUnpackPos format l) (rawBkeyUnpackPos format r)) ∧
    ∀ b : Btree, b.format = format → b.nrKeyBits = bkeyFormatKeyBits format →
      ∀ l r, (PackedWith format l ∨ l.format = KEY_FORMAT_CURRENT) →
        (PackedWith format r ∨ r.format = KEY_FORMAT_CURRENT) →
        bch2BkeyCmpPacked b l r = bposCmp (bkeyUnpackPos b l) (bkeyUnpackPos b r) :=
  ⟨fun _ _ => rawBkeyCmpBits_packedWith valid,
    fun b btreeFormat keyBits _ _ => bch2BkeyCmpPacked_pos valid b btreeFormat keyBits⟩

-- The key of bch2_bkey_pack_test and its successor, packed in test_format, and
-- the successor as an unpacked struct bkey.
def packTestNextKey : Bkey := {packTestKey with p := ⟨4134,1250629070527416634,0⟩}

def packTestPacked : BkeyPacked :=
  (bch2BkeyPackKey ⟨0,0,false,0,[0,0,0]⟩ packTestKey packTestFormat).getD ⟨0,0,false,0,[0,0,0]⟩

def packTestNextPacked : BkeyPacked :=
  (bch2BkeyPackKey ⟨0,0,false,0,[0,0,0]⟩ packTestNextKey packTestFormat).getD ⟨0,0,false,0,[0,0,0]⟩

def packTestNextUnpacked : BkeyPacked :=
  {(bch2BkeyPackKey ⟨0,0,false,0,List.replicate 5 0⟩ packTestNextKey bch2BkeyFormatCurrent).getD
    ⟨0,0,false,0,[]⟩ with format := KEY_FORMAT_CURRENT}

theorem cmp_packed_test_keys :
    let b : Btree := ⟨packTestFormat,bkeyFormatKeyBits packTestFormat⟩
    bch2BkeyFormatInvalid packTestFormat = .ok () ∧
      rawBkeyCmpBits packTestPacked.words packTestNextPacked.words (bkeyFormatKeyBits packTestFormat) =
        bposCmp (rawBkeyUnpackPos packTestFormat packTestPacked)
          (rawBkeyUnpackPos packTestFormat packTestNextPacked) ∧
      bch2BkeyCmpPacked b packTestPacked packTestNextUnpacked =
        bposCmp (bkeyUnpackPos b packTestPacked) (bkeyUnpackPos b packTestNextUnpacked) := by
  have valid : bch2BkeyFormatInvalid packTestFormat = .ok () := by decide
  have packed : PackedWith packTestFormat packTestPacked := ⟨⟨0,0,false,0,[0,0,0]⟩,packTestKey,rfl,by decide⟩
  have nextPacked : PackedWith packTestFormat packTestNextPacked := ⟨⟨0,0,false,0,[0,0,0]⟩,packTestNextKey,rfl,by decide⟩
  obtain ⟨words,cmp⟩ := bkey_cmp_packed_eq_bpos_cmp packTestFormat valid
  exact ⟨valid,words _ _ packed nextPacked,cmp _ rfl rfl _ _ (Or.inl packed) (Or.inr rfl)⟩

end Bcachefs
