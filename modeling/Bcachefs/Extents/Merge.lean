import Bcachefs.Extents.Entry

namespace Bcachefs

-- A KEY_TYPE_extent key as bch2_extent_merge sees it: k->p, k->size and the
-- value's entries.
structure ExtentKey where
  p : Bpos
  size : Nat
  entries : List BchExtentEntry
  sizeLt : size < 2^32
  deriving Repr

instance : DecidableEq ExtentKey := fun a b =>
  decidable_of_iff (a.p = b.p ∧ a.size = b.size ∧ a.entries = b.entries) (by
    cases a
    cases b
    simp only [ExtentKey.mk.injEq])

def ExtentKey.toPtrsKey (k : ExtentKey) : BkeyPtrsKey := ⟨k.p,k.size,.extent k.entries,k.sizeLt⟩

-- bkey_start_offset(k)
def bkeyStartOffset (k : ExtentKey) : UInt64 := k.p.offset - k.size.toUInt64

-- bch2_key_resize(k, new_size): the end moves with the size.
def bch2KeyResize (k : ExtentKey) (newSize : Nat) : ExtentKey :=
  ⟨⟨k.p.inode,k.p.offset - k.size.toUInt64 + newSize.toUInt64,k.p.snapshot⟩,newSize % 2^32,k.entries,
    Nat.mod_lt _ (by decide)⟩

-- The first loop of bch2_extent_merge: both keys hold entries of the same types,
-- in the same order, and as many.
def extentEntryTypesMatch : List BchExtentEntry → List BchExtentEntry → Bool
  | [], [] => true
  | l :: ls, r :: rs => l.type == r.type && extentEntryTypesMatch ls rs
  | _, _ => false

-- One pass of the second loop, on the i-th pointer of each key: whether the
-- two may merge. Sums of crc fields are u32 sums, as in the source.
def extentPtrsMergeable (c : BchFs) (lp rp : ExtentPtrDecoded) : Bool :=
  if lp.ptr.offset + lp.crc.offset + lp.crc.liveSize ≠ rp.ptr.offset + rp.crc.offset ||
      lp.ptr.dev ≠ rp.ptr.dev || lp.ptr.gen ≠ rp.ptr.gen || lp.ptr.unwritten ≠ rp.ptr.unwritten ||
      lp.hasEc ≠ rp.hasEc then false
  -- extents may not straddle buckets
  else if !(match c.dev lp.ptr.dev with
      | some ca => ptrBucketNr ca lp.ptr == ptrBucketNr ca rp.ptr
      | none => false) then false
  else if lp.hasEc ≠ rp.hasEc ||
      (lp.hasEc && (lp.ec.block ≠ rp.ec.block || lp.ec.redundancy ≠ rp.ec.redundancy || lp.ec.idx ≠ rp.ec.idx)) then
    false
  else if lp.crc.compressionType ≠ rp.crc.compressionType || lp.crc.nonce ≠ rp.crc.nonce then false
  -- the left extent's crc entry can cover both
  else if (lp.crc.offset + lp.crc.liveSize + rp.crc.liveSize) % 2^32 ≤ lp.crc.uncompressedSize then true
  -- the right extent's crc entry can
  else if lp.crc.liveSize ≤ rp.crc.offset then true
  -- only merging the checksums is left
  else if lp.crc.csumType ≠ rp.crc.csumType || lp.crc.nonce ≠ rp.crc.nonce || crcIsCompressed lp.crc ||
      !bch2ChecksumMergeable lp.crc.csumType then false
  else if (lp.crc.offset + lp.crc.liveSize) % 2^32 ≠ lp.crc.compressedSize || rp.crc.offset ≠ 0 then false
  else if lp.crc.csumType ≠ 0 &&
      (lp.crc.uncompressedSize + rp.crc.uncompressedSize) % 2^32 > c.encodedExtentMax >>> 9 then false
  else true

-- The third loop: merged crc entries still fit their layouts.
def extentCrcsFit (lsize rsize : Nat) : List BchExtentEntry → List BchExtentEntry → Bool
  | .crc cl :: ls, .crc cr :: rs =>
    let crcL := bch2ExtentCrcUnpack lsize (some cl)
    let crcR := bch2ExtentCrcUnpack rsize (some cr)
    !((crcL.uncompressedSize + crcR.uncompressedSize) % 2^32 > bch2CrcFieldSizeMax cl.type) &&
      extentCrcsFit lsize rsize ls rs
  | _ :: ls, _ :: rs => extentCrcsFit lsize rsize ls rs
  | _, _ => true

-- The last loop, writing l's entries: each crc entry keeps l's crc, takes r's
-- crc moved back by l's live size (and r's pointers up to the next crc entry),
-- or merges the two checksums. `checksumMerge` is bch2_checksum_merge.
def extentMergeEntries (checksumMerge : Nat → BchCsum → BchCsum → Nat → BchCsum) (lsize rsize : Nat) :
    Bool → List BchExtentEntry → List BchExtentEntry → List BchExtentEntry
  | useRightPtr, .ptr p :: ls, er :: rs =>
    let p' := if useRightPtr then (match er with
      | .ptr q => q
      | _ => p) else p
    .ptr p' :: extentMergeEntries checksumMerge lsize rsize useRightPtr ls rs
  | _, .crc cl :: ls, er :: rs =>
    let crcL := bch2ExtentCrcUnpack lsize (some cl)
    let crcR := bch2ExtentCrcUnpack rsize (match er with
      | .crc cr => some cr
      | _ => none)
    if (crcL.offset + crcL.liveSize + crcR.liveSize) % 2^32 ≤ crcL.uncompressedSize then
      .crc cl :: extentMergeEntries checksumMerge lsize rsize false ls rs
    else if crcL.liveSize ≤ crcR.offset then
      .crc (bch2ExtentCrcPack { crcR with offset := crcR.offset - crcL.liveSize } cl.type) ::
        extentMergeEntries checksumMerge lsize rsize true ls rs
    else
      .crc (bch2ExtentCrcPack { crcL with
          csum := checksumMerge crcL.csumType crcL.csum crcR.csum (crcR.uncompressedSize <<< 9),
          uncompressedSize := (crcL.uncompressedSize + crcR.uncompressedSize) % 2^32,
          compressedSize := (crcL.compressedSize + crcR.compressedSize) % 2^32 } cl.type) ::
        extentMergeEntries checksumMerge lsize rsize false ls rs
  | useRightPtr, el :: ls, _ :: rs => el :: extentMergeEntries checksumMerge lsize rsize useRightPtr ls rs
  | _, ls, [] => ls
  | _, [], _ => []

-- bch2_extent_merge(c, l, r): the merged l, or none where it returns false and
-- leaves l as it was.
def bch2ExtentMerge (c : BchFs) (checksumMerge : Nat → BchCsum → BchCsum → Nat → BchCsum) (l r : ExtentKey) :
    Option ExtentKey :=
  if !extentEntryTypesMatch l.entries r.entries then none
  else if !((bkeyPtrsDecode l.size l.entries).zip (bkeyPtrsDecode r.size r.entries)).all
      (fun (lp,rp) => extentPtrsMergeable c lp rp) then none
  else if !extentCrcsFit l.size r.size l.entries r.entries then none
  else
    some (bch2KeyResize ⟨l.p,l.size,extentMergeEntries checksumMerge l.size r.size false l.entries r.entries,l.sizeLt⟩
      (l.size + r.size))

-- What the i-th pointer of an extent says of sector `s`: the device and
-- generation, the stored blob (where it starts on disk, its compressed size,
-- checksum and compression), and the sector's offset in the blob's uncompressed
-- data. This is what a merge must keep for every sector of both keys.
structure SectorLocation where
  dev : Nat
  gen : Nat
  blobOffset : Nat
  compressedSize : Nat
  csum : BchCsum
  compressionType : Nat
  offset : Nat
  deriving DecidableEq, Repr

def extentSectorLocation (k : ExtentKey) (i s : Nat) : Option SectorLocation :=
  match (bkeyPtrsDecode k.size k.entries)[i]? with
  | none => none
  | some d =>
    if (bkeyStartOffset k).toNat ≤ s ∧ s < k.p.offset.toNat then
      some ⟨d.ptr.dev,d.ptr.gen,d.ptr.offset,d.crc.compressedSize,d.crc.csum,d.crc.compressionType,
        d.crc.offset + (s - (bkeyStartOffset k).toNat)⟩
    else none

-- Two lz4 blobs of 16 sectors stored in 4, on bucket 1 of device 0 at sectors
-- 228 and 236; each extent keeps the first 8 sectors of its blob, the second
-- extent right after the first in the file.
def mergeTestDev : BchDev := ⟨4,1,128⟩

def mergeTestFs : BchFs := ⟨fun dev => if dev = 0 then some mergeTestDev else none,64 <<< 10,false,512⟩

def mergeTestCrc : BchExtentCrc :=
  ⟨.crc32,3,15,0,0,BCH_CSUM_none,BCH_COMPRESSION_TYPE_lz4,⟨0,0⟩,by decide,by decide,by decide,zero_le_crc32NonceMax,
    csumNone_lt,by decide,crcCsumFits_crc32_zero⟩

def mergeTestExtent (stop ptrOffset : Nat) (fits : ptrOffset < 2^44) : ExtentKey :=
  ⟨⟨1,stop.toUInt64,0⟩,8,[.crc mergeTestCrc,.ptr ⟨false,false,ptrOffset,0,0,fits,zero_lt_extentPtrFieldMax,zero_lt_extentPtrFieldMax⟩],
    by decide⟩

-- Both extents pass validation and sit end to start, and bch2_extent_merge
-- merges them, whatever bch2_checksum_merge computes: the contiguity test adds
-- ptr.offset and crc.offset, 228 + 0 + 8 = 236 + 0, which compares sectors on
-- disk with sectors of uncompressed data. The merged key keeps the left crc,
-- so sector 8 of the file, the first of the right extent, is read from the left
-- blob at uncompressed offset 8 instead of from the right blob at offset 0.
theorem extent_merge_relocates_sectors (checksumMerge : Nat → BchCsum → BchCsum → Nat → BchCsum) :
    bch2BkeyPtrsValidate mergeTestFs ⟨false,true⟩ (mergeTestExtent 8 228 (by decide)).toPtrsKey = .ok () ∧
      bch2BkeyPtrsValidate mergeTestFs ⟨false,true⟩ (mergeTestExtent 16 236 (by decide)).toPtrsKey = .ok () ∧
      (mergeTestExtent 8 228 (by decide)).p.offset = bkeyStartOffset (mergeTestExtent 16 236 (by decide)) ∧
      ∃ merged, bch2ExtentMerge mergeTestFs checksumMerge (mergeTestExtent 8 228 (by decide))
          (mergeTestExtent 16 236 (by decide)) = some merged ∧
        merged.size = 16 ∧
        extentSectorLocation merged 0 8 = some ⟨0,0,228,4,⟨0,0⟩,BCH_COMPRESSION_TYPE_lz4,8⟩ ∧
        extentSectorLocation (mergeTestExtent 16 236 (by decide)) 0 8 =
          some ⟨0,0,236,4,⟨0,0⟩,BCH_COMPRESSION_TYPE_lz4,0⟩ := by
  -- every crc pair takes the branch that keeps the left crc, which never calls
  -- bch2_checksum_merge
  have keepsLeft : extentMergeEntries checksumMerge (mergeTestExtent 8 228 (by decide)).size
      (mergeTestExtent 16 236 (by decide)).size false (mergeTestExtent 8 228 (by decide)).entries
      (mergeTestExtent 16 236 (by decide)).entries = (mergeTestExtent 8 228 (by decide)).entries := by
    simp [extentMergeEntries,mergeTestExtent,bch2ExtentCrcUnpack,mergeTestCrc]
  have merged : bch2ExtentMerge mergeTestFs checksumMerge (mergeTestExtent 8 228 (by decide))
      (mergeTestExtent 16 236 (by decide)) = some (bch2KeyResize (mergeTestExtent 8 228 (by decide)) 16) := by
    unfold bch2ExtentMerge
    rw [if_neg (by decide),if_neg (by decide),if_neg (by decide),keepsLeft]
    rfl
  exact ⟨by decide,by decide,by decide,_,merged,by decide,by decide,by decide⟩

end Bcachefs
