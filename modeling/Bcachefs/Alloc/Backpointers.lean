import Bcachefs.Extents.Entry
import Bcachefs.Bkey.Cmp

namespace Bcachefs

-- enum bch_data_type
inductive BchDataType where
  | free
  | sb
  | journal
  | btree
  | user
  | cached
  | parity
  | stripe
  | needGcGens
  | needDiscard
  | unstriped
  deriving DecidableEq, Repr

def MAX_EXTENT_COMPRESS_RATIO_SHIFT : UInt64 := 10

-- bp_pos_to_bucket: the backpointer's offset holds the sector shifted up by
-- MAX_EXTENT_COMPRESS_RATIO_SHIFT.
def bpPosToBucket (ca : BchDev) (bpPos : Bpos) : Bpos :=
  let bucketSector := bpPos.offset >>> MAX_EXTENT_COMPRESS_RATIO_SHIFT
  ⟨bpPos.inode,sectorToBucket ca bucketSector,0⟩

def bucketPosToBpNoerror (ca : BchDev) (bucket : Bpos) (bucketOffset : UInt64) : Bpos :=
  ⟨bucket.inode,(bucketToSector ca bucket.offset <<< MAX_EXTENT_COMPRESS_RATIO_SHIFT) + bucketOffset,0⟩

-- bucket_pos_to_bp; its EBUG_ON is a debug build's check of the round trip.
def bucketPosToBp (ca : BchDev) (bucket : Bpos) (bucketOffset : UInt64) : Bpos :=
  bucketPosToBpNoerror ca bucket bucketOffset

def bucketPosToBpStart (ca : BchDev) (bucket : Bpos) : Bpos := bucketPosToBp ca bucket 0

-- bpos_nosnap_successor and bpos_nosnap_predecessor; none where they BUG().
def bposNosnapSuccessor (p : Bpos) : Option Bpos :=
  if p.offset + 1 ≠ 0 then some ⟨p.inode,p.offset + 1,0⟩
  else if p.inode + 1 ≠ 0 then some ⟨p.inode + 1,p.offset + 1,0⟩
  else none

def bposNosnapPredecessor (p : Bpos) : Option Bpos :=
  if p.offset ≠ 0 then some ⟨p.inode,p.offset - 1,0⟩
  else if p.inode ≠ 0 then some ⟨p.inode - 1,p.offset - 1,0⟩
  else none

def bucketPosToBpEnd (ca : BchDev) (bucket : Bpos) : Option Bpos := do
  let next ← bposNosnapSuccessor bucket
  bposNosnapPredecessor (bucketPosToBp ca next 0)

-- ptr_disk_sectors(sectors, p)
def ptrDiskSectors (sectors : Nat) (p : ExtentPtrDecoded) : Nat :=
  if crcIsCompressed p.crc then DIV_ROUND_UP (sectors * p.crc.compressedSize) p.crc.uncompressedSize else sectors

-- bch2_bkey_ptr_data_type(k, p, entry); for a stripe, `entry` is the index of
-- the pointer among the stripe's blocks.
def bch2BkeyPtrDataType (k : BkeyPtrsKey) (p : ExtentPtrDecoded) (entry : Nat) : BchDataType :=
  match k.v with
  | .btreePtr _ | .btreePtrV2 _ => .btree
  | .extent _ | .reflinkV _ => if p.hasEc then .stripe else if p.ptr.cached then .cached else .user
  | .stripe s => if entry ≥ s.nrBlocks - s.nrRedundant then .parity else .user

-- struct bch_backpointer
structure BchBackpointer where
  btreeId : Nat
  level : Nat
  dataType : BchDataType
  bucketGen : Nat
  bucketLen : Nat
  pos : Bpos
  deriving DecidableEq, Repr

-- struct bkey_i_backpointer: the key's position and the value.
structure BkeyIBackpointer where
  p : Bpos
  v : BchBackpointer
  deriving DecidableEq, Repr

-- bch2_extent_ptr_to_bp(c, btree_id, level, k, p, entry, bp)
def bch2ExtentPtrToBp (c : BchFs) (btreeId level : Nat) (k : BkeyPtrsKey) (p : ExtentPtrDecoded) (entry : Nat) :
    BkeyIBackpointer :=
  let offset : UInt64 :=
    match k.v with
    -- stripe backpointers go last in the range of the block's sectors, clear of
    -- the backpointers of the extents stored in the block
    | .stripe s => ((p.ptr.offset + s.sectors).toUInt64 <<< MAX_EXTENT_COMPRESS_RATIO_SHIFT) - 1
    | _ => (p.ptr.offset.toUInt64 <<< MAX_EXTENT_COMPRESS_RATIO_SHIFT) + p.crc.offset.toUInt64
  ⟨⟨p.ptr.dev.toUInt64,offset,0⟩,
    ⟨btreeId,level,bch2BkeyPtrDataType k p entry,p.ptr.gen,
      ptrDiskSectors (if level ≠ 0 then c.btreeSectors else k.size) p,k.p⟩⟩

section Encoding

theorem bpos_eq_of_toNat {p q : Bpos} (inode : p.inode = q.inode) (offset : p.offset.toNat = q.offset.toNat)
    (snapshot : p.snapshot = q.snapshot) : p = q := by
  obtain ⟨pi,po,ps⟩ := p
  obtain ⟨qi,qo,qs⟩ := q
  simp only at inode offset snapshot
  rw [inode,UInt64.toNat_inj.mp offset,snapshot]

theorem bpPosToBucket_offset (ca : BchDev) (bp : Bpos) :
    (bpPosToBucket ca bp).offset.toNat = bp.offset.toNat / 2^10 / ca.bucketSize.toNat := by
  simp [bpPosToBucket,sectorToBucket,MAX_EXTENT_COMPRESS_RATIO_SHIFT,UInt64.toNat_div,UInt64.toNat_shiftRight,
    Nat.shiftRight_eq_div_pow]

structure DevGeometry (ca : BchDev) : Prop where
  bucketSizePos : 0 < ca.bucketSize.toNat
  fits : ca.nbuckets.toNat * ca.bucketSize.toNat < 2^54

theorem bucketPosToBp_offset {ca : BchDev} (geometry : DevGeometry ca) (bucket : Bpos) (bucketOffset : UInt64)
    (inDev : bucket.offset.toNat ≤ ca.nbuckets.toNat)
    (within : bucket.offset.toNat * ca.bucketSize.toNat * 2^10 + bucketOffset.toNat < 2^64) :
    (bucketPosToBp ca bucket bucketOffset).offset.toNat =
      bucket.offset.toNat * ca.bucketSize.toNat * 2^10 + bucketOffset.toNat := by
  have sectors : bucket.offset.toNat * ca.bucketSize.toNat ≤ ca.nbuckets.toNat * ca.bucketSize.toNat :=
    Nat.mul_le_mul_right _ inDev
  have fits := geometry.fits
  simp only [bucketPosToBp,bucketPosToBpNoerror,bucketToSector,MAX_EXTENT_COMPRESS_RATIO_SHIFT,UInt64.toNat_add,
    UInt64.toNat_shiftLeft,UInt64.toNat_mul,UInt16.toNat_toUInt64,Nat.shiftLeft_eq]
  simp
  omega

theorem bpPosToBucket_bucketPosToBp {ca : BchDev} (geometry : DevGeometry ca) {bucket : Bpos}
    (inDev : bucket.offset.toNat < ca.nbuckets.toNat) {bucketOffset : UInt64}
    (within : bucketOffset.toNat < ca.bucketSize.toNat <<< 10) :
    bpPosToBucket ca (bucketPosToBp ca bucket bucketOffset) = ⟨bucket.inode,bucket.offset,0⟩ := by
  have bs := geometry.bucketSizePos
  have fits := geometry.fits
  rw [Nat.shiftLeft_eq] at within
  have last : (bucket.offset.toNat + 1) * ca.bucketSize.toNat ≤ ca.nbuckets.toNat * ca.bucketSize.toNat :=
    Nat.mul_le_mul_right _ inDev
  have offset := bucketPosToBp_offset geometry bucket bucketOffset inDev.le (by rw [Nat.add_mul] at last; omega)
  refine bpos_eq_of_toNat rfl ?_ rfl
  rw [bpPosToBucket_offset,offset]
  have inBucket : bucketOffset.toNat / 2^10 < ca.bucketSize.toNat := Nat.div_lt_of_lt_mul (by rw [Nat.mul_comm]; exact within)
  calc (bucket.offset.toNat * ca.bucketSize.toNat * 2^10 + bucketOffset.toNat) / 2^10 / ca.bucketSize.toNat
      = (bucketOffset.toNat / 2^10 + bucket.offset.toNat * ca.bucketSize.toNat) / ca.bucketSize.toNat := by
        rw [Nat.add_comm,Nat.add_mul_div_right _ _ (by decide)]
    _ = bucket.offset.toNat := by
        rw [Nat.add_mul_div_right _ _ bs,Nat.div_eq_of_lt inBucket,Nat.zero_add]

theorem bposNosnapSuccessor_of_lt {p : Bpos} (below : p.offset.toNat + 1 < 2^64) :
    bposNosnapSuccessor p = some ⟨p.inode,p.offset + 1,0⟩ := by
  have nonzero : p.offset + 1 ≠ 0 := by
    intro zero
    have := congrArg UInt64.toNat zero
    simp [UInt64.toNat_add] at this
    omega
  simp [bposNosnapSuccessor,nonzero]

theorem bposNosnapPredecessor_of_pos {p : Bpos} (pos : 0 < p.offset.toNat) :
    bposNosnapPredecessor p = some ⟨p.inode,p.offset - 1,0⟩ := by
  have nonzero : p.offset ≠ 0 := by
    intro zero
    rw [zero] at pos
    exact absurd pos (by decide)
  simp [bposNosnapPredecessor,nonzero]

theorem bucketPosToBpEnd_offset {ca : BchDev} (geometry : DevGeometry ca) (bucket : Bpos)
    (inDev : bucket.offset.toNat < ca.nbuckets.toNat) :
    ∃ e, bucketPosToBpEnd ca bucket = some e ∧ e.inode = bucket.inode ∧ e.snapshot = 0 ∧
      e.offset.toNat = (bucket.offset.toNat + 1) * ca.bucketSize.toNat * 2^10 - 1 := by
  have bs := geometry.bucketSizePos
  have fits := geometry.fits
  have last : (bucket.offset.toNat + 1) * ca.bucketSize.toNat ≤ ca.nbuckets.toNat * ca.bucketSize.toNat :=
    Nat.mul_le_mul_right _ inDev
  have nbuckets : ca.nbuckets.toNat ≤ ca.nbuckets.toNat * ca.bucketSize.toNat := Nat.le_mul_of_pos_right _ bs
  have nextOffset : (bucket.offset + 1).toNat = bucket.offset.toNat + 1 := by
    simp [UInt64.toNat_add]
    omega
  have start := bucketPosToBp_offset geometry ⟨bucket.inode,bucket.offset + 1,0⟩ 0 (by simp only; omega) (by simp only [nextOffset]; simp; omega)
  simp only [nextOffset,UInt64.toNat_zero,Nat.add_zero] at start
  have positive : 0 < (bucketPosToBp ca ⟨bucket.inode,bucket.offset + 1,0⟩ 0).offset.toNat := by
    rw [start]
    exact Nat.mul_pos (Nat.mul_pos (Nat.succ_pos _) bs) (by decide)
  refine ⟨⟨bucket.inode,(bucketPosToBp ca ⟨bucket.inode,bucket.offset + 1,0⟩ 0).offset - 1,0⟩,?_,rfl,rfl,?_⟩
  · rw [bucketPosToBpEnd,bposNosnapSuccessor_of_lt (by omega),Option.bind_eq_bind,Option.bind_some,
      bposNosnapPredecessor_of_pos positive]
    rfl
  · show ((bucketPosToBp ca ⟨bucket.inode,bucket.offset + 1,0⟩ 0).offset - 1).toNat = _
    rw [UInt64.toNat_sub_of_le _ _ (UInt64.le_iff_toNat_le.mpr (by simp; omega)),start]
    simp

-- The sector a stored backpointer offset holds: the pointer's, plus what of the
-- crc offset reaches past MAX_EXTENT_COMPRESS_RATIO_SHIFT bits.
theorem extentPtrToBp_offset (c : BchFs) (btreeId level : Nat) {k : BkeyPtrsKey} (notStripe : ∀ s, k.v ≠ .stripe s)
    {p : ExtentPtrDecoded} (crcOffset : p.crc.offset < CRC128_SIZE_MAX) (entry : Nat) :
    (bch2ExtentPtrToBp c btreeId level k p entry).p.offset.toNat = p.ptr.offset * 2^10 + p.crc.offset := by
  have ptrOffset := p.ptr.offsetLt
  unfold CRC128_SIZE_MAX at crcOffset
  have offset : (bch2ExtentPtrToBp c btreeId level k p entry).p.offset =
      (p.ptr.offset.toUInt64 <<< MAX_EXTENT_COMPRESS_RATIO_SHIFT) + p.crc.offset.toUInt64 := by
    unfold bch2ExtentPtrToBp
    split
    · rename_i s stripe
      exact absurd stripe (notStripe s)
    all_goals rfl
  rw [offset]
  simp only [MAX_EXTENT_COMPRESS_RATIO_SHIFT,UInt64.toNat_add,UInt64.toNat_shiftLeft,Nat.shiftLeft_eq]
  simp
  omega

theorem bpPosToBucket_extentPtrToBp (ca : BchDev) (c : BchFs) (btreeId level : Nat) {k : BkeyPtrsKey}
    (notStripe : ∀ s, k.v ≠ .stripe s) {p : ExtentPtrDecoded} (crcOffset : p.crc.offset < CRC128_SIZE_MAX)
    (entry : Nat) :
    (bpPosToBucket ca (bch2ExtentPtrToBp c btreeId level k p entry).p).offset.toNat =
      (p.ptr.offset + p.crc.offset / 2^10) / ca.bucketSize.toNat := by
  rw [bpPosToBucket_offset,extentPtrToBp_offset c btreeId level notStripe crcOffset,Nat.add_comm,
    Nat.add_mul_div_right _ _ (by decide),Nat.add_comm]

theorem ptrBucketNr_toNat (ca : BchDev) (ptr : BchExtentPtr) :
    (ptrBucketPos ca ptr).offset.toNat = ptr.offset / ca.bucketSize.toNat := by
  have fits : ptr.offset < 2^64 := by
    have := ptr.offsetLt
    omega
  simp only [ptrBucketPos,ptrBucketNr,sectorToBucket,UInt64.toNat_div,UInt16.toNat_toUInt64,Nat.toUInt64_eq,
    UInt64.toNat_ofNat',Nat.mod_eq_of_lt fits]

theorem bposCmp_ne_gt {l r : Bpos} (inode : l.inode = r.inode) (snapshot : l.snapshot = r.snapshot)
    (offset : l.offset.toNat ≤ r.offset.toNat) : bposCmp l r ≠ .gt := by
  rw [bposCmp_eq_compare,bposRank,bposRank,inode,snapshot]
  exact Nat.compare_ne_gt.mpr (by omega)

theorem extentPtrToBp_in_bucket {c : BchFs} {context : BkeyValidateContext} {k : BkeyPtrsKey}
    (valid : bch2BkeyPtrsValidate c context k = .ok ()) (notStripe : ∀ s, k.v ≠ .stripe s) {p : ExtentPtrDecoded}
    (member : p ∈ bkeyPtrsDecode k.size (bch2BkeyPtrsC k)) {ca : BchDev} (onDev : c.dev p.ptr.dev = some ca)
    (geometry : DevGeometry ca) (small : p.crc.offset < 2^10) (btreeId level entry : Nat) :
    bpPosToBucket ca (bch2ExtentPtrToBp c btreeId level k p entry).p = ptrBucketPos ca p.ptr ∧
      bposCmp (bucketPosToBpStart ca (ptrBucketPos ca p.ptr)) (bch2ExtentPtrToBp c btreeId level k p entry).p ≠ .gt ∧
      ∃ e, bucketPosToBpEnd ca (ptrBucketPos ca p.ptr) = some e ∧
        bposCmp (bch2ExtentPtrToBp c btreeId level k p entry).p e ≠ .gt := by
  have bs := geometry.bucketSizePos
  have crcOffset : p.crc.offset < CRC128_SIZE_MAX := bkeyPtrsDecode_crc_offset_lt member
  obtain ⟨size,ptrValid⟩ := bch2BkeyPtrsValidate_ptr valid (mem_bkeyPtrs.mpr (mem_bkeyPtrsDecodeFrom member).1)
  obtain ⟨_,inDev,_⟩ := extentPtrValidate_bucket ptrValid onDev
  have bucket := ptrBucketNr_toNat ca p.ptr
  have offset := extentPtrToBp_offset c btreeId level notStripe crcOffset entry
  -- the pointer's sector sits in its bucket b: b * bucket_size ≤ offset < b * bucket_size + bucket_size
  have lower := Nat.div_mul_le_self p.ptr.offset ca.bucketSize.toNat
  have upper := @Nat.lt_div_mul_add p.ptr.offset _ bs
  have sectors := Nat.mul_le_mul_right ca.bucketSize.toNat inDev.le
  have fits := geometry.fits
  have sector : p.crc.offset / 2^10 = 0 := Nat.div_eq_of_lt small
  refine ⟨bpos_eq_of_toNat rfl ?_ rfl,?_,?_⟩
  · rw [bpPosToBucket_extentPtrToBp ca c btreeId level notStripe crcOffset,sector,Nat.add_zero,bucket]
  · have start := bucketPosToBp_offset geometry (ptrBucketPos ca p.ptr) 0
      (by rw [bucket]; omega) (by rw [bucket,UInt64.toNat_zero]; omega)
    refine bposCmp_ne_gt rfl rfl ?_
    rw [bucketPosToBpStart,start,offset,bucket,UInt64.toNat_zero]
    omega
  · obtain ⟨e,ends,inode,snapshot,eOffset⟩ := bucketPosToBpEnd_offset geometry (ptrBucketPos ca p.ptr)
      (by rw [bucket]; exact inDev)
    refine ⟨e,ends,bposCmp_ne_gt inode.symm snapshot.symm ?_⟩
    rw [eOffset,offset,bucket,Nat.add_mul,Nat.one_mul]
    omega

end Encoding

-- One device of eight-sector buckets, buckets 1 to 3 in use, and a filesystem
-- whose encoded_extent_max is 1 MiB, the largest power of two its option range
-- allows.
def bpTestDev : BchDev := ⟨4,1,8⟩

def bpTestFs : BchFs := ⟨fun dev => if dev = 0 then some bpTestDev else none,1 <<< 20,false,512⟩

def bpTestPtr (offset : Nat) (fits : offset < 2^44) : BchExtentPtr :=
  ⟨false,false,offset,0,0,fits,zero_lt_extentPtrFieldMax,zero_lt_extentPtrFieldMax⟩

-- A one-sector extent on the last sector of bucket 1, kept from sector 1024 of
-- a zstd blob of 2048 sectors stored in one; and a one-sector extent on the
-- first sector of bucket 2.
def bpTestKey : BkeyPtrsKey :=
  ⟨⟨1,1,0⟩,1,.extent [.crc ⟨.crc128,0,2047,1024,0,BCH_CSUM_none,BCH_COMPRESSION_TYPE_zstd,⟨0,0⟩,
    by decide,by decide,by decide,by decide,csumNone_lt,by decide,trivial⟩,.ptr (bpTestPtr 15 (by decide))],by decide⟩

def bpTestNext : BkeyPtrsKey := ⟨⟨1,2,0⟩,1,.extent [.ptr (bpTestPtr 16 (by decide))],by decide⟩

-- Both keys pass validation at commit. The first one's pointer lies in bucket 1,
-- but its backpointer, at sector 1024 >> 10 = 1 past the pointer, names bucket 2
-- and lies past the end of bucket 1's backpointers; and the two pointers' disk
-- ranges are apart while their backpointers share one position. The round trip
-- from a bucket and an offset within its backpointer range holds on every device.
theorem extent_ptr_to_bp_leaves_bucket :
    (bch2BkeyPtrsValidate bpTestFs ⟨false,true⟩ bpTestKey = .ok () ∧
      bch2BkeyPtrsValidate bpTestFs ⟨false,true⟩ bpTestNext = .ok () ∧
      (bkeyPtrsDecode bpTestKey.size (bch2BkeyPtrsC bpTestKey)).length = 1 ∧
      (bkeyPtrsDecode bpTestNext.size (bch2BkeyPtrsC bpTestNext)).length = 1 ∧
      bucketPosToBpEnd bpTestDev ⟨0,1,0⟩ = some ⟨0,16383,0⟩ ∧
      ∀ p ∈ bkeyPtrsDecode bpTestKey.size (bch2BkeyPtrsC bpTestKey),
      ∀ q ∈ bkeyPtrsDecode bpTestNext.size (bch2BkeyPtrsC bpTestNext),
        bpTestFs.dev p.ptr.dev = some bpTestDev ∧
        ptrBucketPos bpTestDev p.ptr = ⟨0,1,0⟩ ∧
        (bch2ExtentPtrToBp bpTestFs 0 0 bpTestKey p 0).p = ⟨0,16384,0⟩ ∧
        bpPosToBucket bpTestDev (bch2ExtentPtrToBp bpTestFs 0 0 bpTestKey p 0).p = ⟨0,2,0⟩ ∧
        p.ptr.offset + ptrDiskSectors bpTestKey.size p ≤ q.ptr.offset ∧
        (bch2ExtentPtrToBp bpTestFs 0 0 bpTestNext q 0).p = ⟨0,16384,0⟩) ∧
      ∀ ca : BchDev, DevGeometry ca → ∀ bucket : Bpos, bucket.offset.toNat < ca.nbuckets.toNat →
        ∀ bucketOffset : UInt64, bucketOffset.toNat < ca.bucketSize.toNat <<< 10 →
          bpPosToBucket ca (bucketPosToBp ca bucket bucketOffset) = ⟨bucket.inode,bucket.offset,0⟩ := by
  refine ⟨by decide,?_⟩
  intro ca geometry bucket inDev bucketOffset within
  exact bpPosToBucket_bucketPosToBp geometry inDev within

theorem bpTestDev_geometry : DevGeometry bpTestDev := ⟨by decide,by decide⟩

-- Sector 5 of bucket 1 reads back as bucket 1.
theorem extent_ptr_to_bp_round_trip_bucket_one :
    bpPosToBucket bpTestDev (bucketPosToBp bpTestDev ⟨0,1,0⟩ 5) = ⟨0,1,0⟩ :=
  extent_ptr_to_bp_leaves_bucket.2 bpTestDev bpTestDev_geometry ⟨0,1,0⟩ (by decide) 5 (by decide)

end Bcachefs
