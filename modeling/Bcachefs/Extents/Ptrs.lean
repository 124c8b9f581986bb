import Bcachefs.Extents.Merge

namespace Bcachefs

-- bch_crc_bytes[]: the checksum bytes of each enum bch_csum_type; a type past the
-- table has none.
def bchCrcBytes (type : Nat) : Option Nat := [0,4,8,10,16,4,8,8][type]?

-- The layout bch2_extent_crc_append picks: the first that holds the checksum,
-- the uncompressed size and the nonce. None at the BUG().
def crcAppendType (new : BchExtentCrcUnpacked) : Option BchExtentCrcType := do
  let bytes ← bchCrcBytes new.csumType
  if bytes ≤ 4 ∧ new.uncompressedSize ≤ CRC32_SIZE_MAX ∧ new.nonce ≤ CRC32_NONCE_MAX then some .crc32
  else if bytes ≤ 10 ∧ new.uncompressedSize ≤ CRC64_SIZE_MAX ∧ new.nonce ≤ CRC64_NONCE_MAX then some .crc64
  else if bytes ≤ 16 ∧ new.uncompressedSize ≤ CRC128_SIZE_MAX ∧ new.nonce ≤ CRC128_NONCE_MAX then some .crc128
  else none

-- bch2_extent_crc_append(k, new): the crc goes after the last entry.
def bch2ExtentCrcAppend (entries : List BchExtentEntry) (new : BchExtentCrcUnpacked) :
    Option (List BchExtentEntry) :=
  (crcAppendType new).map fun type => entries ++ [.crc (bch2ExtentCrcPack new type)]

-- bch2_crc_unpacked_cmp(l, r): true when the two differ in any field.
def bch2CrcUnpackedCmp (l r : BchExtentCrcUnpacked) : Bool :=
  l.csumType != r.csumType || l.compressionType != r.compressionType || l.compressedSize != r.compressedSize ||
    l.uncompressedSize != r.uncompressedSize || l.offset != r.offset || l.liveSize != r.liveSize ||
    l.nonce != r.nonce || l.csum != r.csum

-- bkey_for_each_crc() stopping at the first crc entry that unpacks to `crc`: its index.
def findCrc (size : Nat) (crc : BchExtentCrcUnpacked) : List BchExtentEntry → Option Nat
  | [] => none
  | .crc c :: rest =>
    if !bch2CrcUnpackedCmp (bch2ExtentCrcUnpack size (some c)) crc then some 0 else (findCrc size crc rest).map (· + 1)
  | _ :: rest => (findCrc size crc rest).map (· + 1)

-- The two __extent_entry_insert calls at `pos`: the pointer, then its stripe
-- entry in front of it.
def insertDecoded (entries : List BchExtentEntry) (pos : Nat) (p : ExtentPtrDecoded) : List BchExtentEntry :=
  entries.take pos ++ ((if p.hasEc then [.stripePtr p.ec] else []) ++ [.ptr p.ptr]) ++ entries.drop pos

-- bch2_extent_ptr_decoded_append(k, p) on a key of `size` sectors: the pointer
-- goes first if it has no crc, right after the first crc entry equal to its
-- own, or after a new crc entry at the end.
def bch2ExtentPtrDecodedAppend (size : Nat) (entries : List BchExtentEntry) (p : ExtentPtrDecoded) :
    Option (List BchExtentEntry) :=
  if !bch2CrcUnpackedCmp (bch2ExtentCrcUnpack size none) p.crc then some (insertDecoded entries 0 p)
  else
    match findCrc size p.crc entries with
    | some i => some (insertDecoded entries (i + 1) p)
    | none => (bch2ExtentCrcAppend entries p.crc).map fun entries => insertDecoded entries entries.length p

def extentEntryIsStripePtr (e : BchExtentEntry) : Bool := e.type == 4

@[simp] theorem extentEntryIsStripePtr_ptr (p : BchExtentPtr) : extentEntryIsStripePtr (.ptr p) = false := rfl
@[simp] theorem extentEntryIsStripePtr_crc (c : BchExtentCrc) : extentEntryIsStripePtr (.crc c) = false := by
  unfold extentEntryIsStripePtr BchExtentEntry.type
  dsimp only
  cases c.type <;> rfl
@[simp] theorem extentEntryIsStripePtr_stripePtr (s : BchExtentStripePtr) : extentEntryIsStripePtr (.stripePtr s) = true :=
  rfl
@[simp] theorem extentEntryIsStripePtr_rebalance : extentEntryIsStripePtr .rebalance = false := rfl
@[simp] theorem extentEntryIsStripePtr_flags : extentEntryIsStripePtr .flags = false := rfl

-- The first loop of bch2_bkey_drop_ptr_noerror over the entries after the
-- pointer: the crc goes too unless a pointer comes before the next crc.
def dropCrcAfter : List BchExtentEntry → Bool
  | [] => true
  | e :: rest => if extentEntryIsCrc e then true else if extentEntryIsPtr e then false else dropCrcAfter rest

-- The second loop, walking back with extent_entry_prev() from index j: stripe
-- entries, and crc entries when dropCrc, go, up to the pointer before.
def dropBefore (dropCrc : Bool) : List BchExtentEntry → Nat → List BchExtentEntry
  | entries, 0 => entries
  | entries, j + 1 =>
    match entries[j]? with
    | none => entries
    | some e =>
      if extentEntryIsPtr e then entries
      else if (extentEntryIsCrc e && dropCrc) || extentEntryIsStripePtr e then dropBefore dropCrc (entries.eraseIdx j) j
      else dropBefore dropCrc entries j

-- bch2_bkey_drop_ptr_noerror(k, ptr) on the entries, for the pointer entry at index i.
def dropPtrEntries (entries : List BchExtentEntry) (i : Nat) : List BchExtentEntry :=
  dropBefore (dropCrcAfter (entries.drop (i + 1))) (entries.eraseIdx i) i

def BCH_SB_MEMBER_INVALID : Nat := 255

-- bch2_bkey_drop_ptr_noerror(k, ptr): a stripe keeps its block and marks its
-- device invalid instead.
def bch2BkeyDropPtrNoerror (v : BkeyPtrsVal) (i : Nat) : BkeyPtrsVal :=
  match v with
  | .btreePtr entries => .btreePtr (dropPtrEntries entries i)
  | .extent entries => .extent (dropPtrEntries entries i)
  | .stripe s =>
    .stripe {s with ptrs := s.ptrs.modify i fun p => {p with dev := BCH_SB_MEMBER_INVALID,devLt := by decide}}
  | .reflinkV entries => .reflinkV (dropPtrEntries entries i)
  | .btreePtrV2 entries => .btreePtrV2 (dropPtrEntries entries i)

section Decode

-- Where __bkey_ptr_next_decode stands after some entries: the crc in force,
-- whether a stripe entry waits for its pointer, and the last stripe entry seen.
def decodeEnd (size : Nat) (crc : BchExtentCrcUnpacked) (hasEc : Bool) (ec : BchExtentStripePtr) :
    List BchExtentEntry → BchExtentCrcUnpacked × Bool × BchExtentStripePtr
  | [] => (crc,hasEc,ec)
  | .ptr _ :: rest => decodeEnd size crc false ec rest
  | .crc c :: rest => decodeEnd size (bch2ExtentCrcUnpack size (some c)) hasEc ec rest
  | .stripePtr s :: rest => decodeEnd size crc true s rest
  | .rebalance :: rest | .flags :: rest => decodeEnd size crc hasEc ec rest

theorem decodeFrom_append (size : Nat) (l1 l2 : List BchExtentEntry) :
    ∀ crc hasEc ec, bkeyPtrsDecodeFrom size crc hasEc ec (l1 ++ l2) =
      bkeyPtrsDecodeFrom size crc hasEc ec l1 ++
        bkeyPtrsDecodeFrom size (decodeEnd size crc hasEc ec l1).1 (decodeEnd size crc hasEc ec l1).2.1
          (decodeEnd size crc hasEc ec l1).2.2 l2 := by
  induction l1 with
  | nil => intros; rfl
  | cons e rest ih =>
    intro crc hasEc ec
    cases e with
    | ptr p => simp only [List.cons_append,bkeyPtrsDecodeFrom,decodeEnd,ih]
    | crc c => exact ih _ _ _
    | stripePtr s => exact ih _ _ _
    | rebalance | flags => exact ih _ _ _

theorem decodeEnd_append (size : Nat) (l1 l2 : List BchExtentEntry) :
    ∀ crc hasEc ec, decodeEnd size crc hasEc ec (l1 ++ l2) =
      decodeEnd size (decodeEnd size crc hasEc ec l1).1 (decodeEnd size crc hasEc ec l1).2.1
        (decodeEnd size crc hasEc ec l1).2.2 l2 := by
  induction l1 with
  | nil => intros; rfl
  | cons e rest ih =>
    intro crc hasEc ec
    cases e <;> exact ih _ _ _

-- A decoded pointer as far as it means anything: __bkey_ptr_next_decode leaves
-- the last stripe entry seen in ec when has_ec is false.
def ExtentPtrDecoded.norm (d : ExtentPtrDecoded) : ExtentPtrDecoded := if d.hasEc then d else {d with ec := ⟨0,0,0⟩}

theorem decodeFrom_norm_ec (size : Nat) (entries : List BchExtentEntry) :
    ∀ crc hasEc ec ec', (hasEc = true → ec = ec') →
      (bkeyPtrsDecodeFrom size crc hasEc ec entries).map ExtentPtrDecoded.norm =
        (bkeyPtrsDecodeFrom size crc hasEc ec' entries).map ExtentPtrDecoded.norm := by
  induction entries with
  | nil => intros; rfl
  | cons e rest ih =>
    intro crc hasEc ec ec' same
    cases e with
    | ptr p =>
      simp only [bkeyPtrsDecodeFrom,List.map_cons,ih crc false ec ec' (fun wrong => by cases wrong)]
      cases hasEc with
      | true => rw [same rfl]
      | false => rfl
    | crc c => exact ih _ _ _ _ same
    | stripePtr s => exact ih _ _ _ _ fun _ => rfl
    | rebalance | flags => exact ih _ _ _ _ same

theorem decodeFrom_inserted (size : Nat) (p : ExtentPtrDecoded) (ec : BchExtentStripePtr) (rest : List BchExtentEntry) :
    (bkeyPtrsDecodeFrom size p.crc false ec ((if p.hasEc then [.stripePtr p.ec] else []) ++ [.ptr p.ptr] ++ rest)).map
        ExtentPtrDecoded.norm =
      p.norm :: (bkeyPtrsDecodeFrom size p.crc false ec rest).map ExtentPtrDecoded.norm := by
  obtain ⟨hasEc,crc,ptr,pec⟩ := p
  cases hasEc with
  | true =>
    simp only [if_true,List.cons_append,List.nil_append,bkeyPtrsDecodeFrom,List.map_cons]
    rw [decodeFrom_norm_ec size rest crc false pec ec (fun wrong => by cases wrong)]
  | false =>
    simp only [Bool.false_eq_true,if_false,List.nil_append,List.singleton_append,bkeyPtrsDecodeFrom,List.map_cons]
    rfl

end Decode

section Append

theorem bch2CrcUnpackedCmp_eq_false {l r : BchExtentCrcUnpacked} : bch2CrcUnpackedCmp l r = false ↔ l = r := by
  constructor
  · intro same
    simp only [bch2CrcUnpackedCmp,Bool.or_eq_false_iff,bne_eq_false_iff_eq] at same
    obtain ⟨⟨⟨⟨⟨⟨⟨csumType,compressionType⟩,compressed⟩,uncompressed⟩,offset⟩,live⟩,nonce⟩,csum⟩ := same
    cases l
    cases r
    simp_all
  · rintro rfl
    simp [bch2CrcUnpackedCmp]

theorem findCrc_split {size : Nat} {crc : BchExtentCrcUnpacked} {entries : List BchExtentEntry} :
    ∀ {i : Nat}, findCrc size crc entries = some i →
      ∃ pre c post, entries = pre ++ .crc c :: post ∧ pre.length = i ∧ bch2ExtentCrcUnpack size (some c) = crc := by
  induction entries with
  | nil => intro i found; cases found
  | cons e rest ih =>
    intro i found
    -- a later match is one entry further along
    have later : (findCrc size crc rest).map (· + 1) = some i →
        ∃ pre c post, e :: rest = pre ++ .crc c :: post ∧ pre.length = i ∧ bch2ExtentCrcUnpack size (some c) = crc := by
      intro shifted
      obtain ⟨j,inRest,rfl⟩ := Option.map_eq_some_iff.mp shifted
      obtain ⟨pre,c,post,split,length,unpacks⟩ := ih inRest
      exact ⟨e :: pre,c,post,by rw [split]; rfl,by rw [List.length_cons,length],unpacks⟩
    cases e with
    | crc c =>
      unfold findCrc at found
      split at found
      · rename_i equal
        cases found
        exact ⟨[],c,rest,rfl,rfl,bch2CrcUnpackedCmp_eq_false.mp (by simpa using equal)⟩
      · exact later found
    | ptr p => exact later found
    | stripePtr s => exact later found
    | rebalance | flags => exact later found

-- An unpacked crc that bch2_extent_crc_append stores and reads back on a key of
-- `size` sectors: the key's sectors lie inside it (what bch2_bkey_ptrs_validate
-- checks), its sizes are positive and fit crc128, and its checksum has no more
-- bytes than its type.
structure CrcStorable (size : Nat) (crc : BchExtentCrcUnpacked) : Prop where
  live : crc.liveSize = size
  livePos : 0 < size
  compressedPos : 0 < crc.compressedSize
  compressedLe : crc.compressedSize ≤ crc.uncompressedSize
  within : crc.offset + crc.liveSize ≤ crc.uncompressedSize
  uncompressedLe : crc.uncompressedSize ≤ CRC128_SIZE_MAX
  nonceLe : crc.nonce ≤ CRC128_NONCE_MAX
  csumTypeLt : crc.csumType < BCH_CSUM_NR
  compressionTypeLt : crc.compressionType < 16
  csumFits : ∀ bytes, bchCrcBytes crc.csumType = some bytes →
    crc.csum.lo.toNat < 2^(8*bytes) ∧ crc.csum.hi.toNat < 2^(8*(bytes-8))

theorem bchCrcBytes_le {type bytes : Nat} (found : bchCrcBytes type = some bytes) : bytes ≤ 16 := by
  have mem := List.mem_of_getElem? found
  simp only [List.mem_cons,List.not_mem_nil,or_false] at mem
  omega

theorem bchCrcBytes_of_lt {type : Nat} (lt : type < BCH_CSUM_NR) : ∃ bytes, bchCrcBytes type = some bytes :=
  ⟨_,List.getElem?_eq_getElem (by simp only [List.length_cons,List.length_nil]; exact lt)⟩

theorem crcAppendType_of_storable {size : Nat} {crc : BchExtentCrcUnpacked} (storable : CrcStorable size crc) :
    ∃ type, crcAppendType crc = some type ∧ crc.uncompressedSize ≤ bch2CrcFieldSizeMax type ∧
      crc.nonce ≤ crcNonceMax type ∧ crcCsumFits type crc.csum := by
  obtain ⟨bytes,found⟩ := bchCrcBytes_of_lt storable.csumTypeLt
  obtain ⟨loFits,hiFits⟩ := storable.csumFits bytes found
  have le16 := bchCrcBytes_le found
  unfold crcAppendType
  simp only [found,Option.bind_eq_bind,Option.bind_some]
  by_cases small : bytes ≤ 4 ∧ crc.uncompressedSize ≤ CRC32_SIZE_MAX ∧ crc.nonce ≤ CRC32_NONCE_MAX
  · refine ⟨.crc32,if_pos small,small.2.1,small.2.2,?_,?_⟩
    · exact Nat.lt_of_lt_of_le loFits (Nat.pow_le_pow_right (by decide) (by omega))
    · have : 8*(bytes-8) = 0 := by omega
      rw [this] at hiFits
      exact UInt64.toNat_inj.mp (by rw [UInt64.toNat_zero]; omega)
  by_cases middle : bytes ≤ 10 ∧ crc.uncompressedSize ≤ CRC64_SIZE_MAX ∧ crc.nonce ≤ CRC64_NONCE_MAX
  · refine ⟨.crc64,by rw [if_neg small,if_pos middle],middle.2.1,middle.2.2,?_⟩
    exact Nat.lt_of_lt_of_le hiFits (Nat.pow_le_pow_right (by decide) (by omega))
  · have large : bytes ≤ 16 ∧ crc.uncompressedSize ≤ CRC128_SIZE_MAX ∧ crc.nonce ≤ CRC128_NONCE_MAX :=
      ⟨le16,storable.uncompressedLe,storable.nonceLe⟩
    exact ⟨.crc128,by rw [if_neg small,if_neg middle,if_pos large],storable.uncompressedLe,storable.nonceLe,trivial⟩

theorem bch2ExtentCrcAppend_of_storable {size : Nat} {crc : BchExtentCrcUnpacked} (storable : CrcStorable size crc)
    (entries : List BchExtentEntry) :
    ∃ c, bch2ExtentCrcAppend entries crc = some (entries ++ [.crc c]) ∧ bch2ExtentCrcUnpack size (some c) = crc := by
  obtain ⟨type,chosen,uncompressedLe,nonceLe,csumFits⟩ := crcAppendType_of_storable storable
  have := storable.livePos
  have := storable.within
  have := storable.live
  refine ⟨bch2ExtentCrcPack crc type,by rw [bch2ExtentCrcAppend,chosen]; rfl,?_⟩
  exact unpack_bch2ExtentCrcPack storable.live storable.compressedPos storable.compressedLe uncompressedLe (by omega)
    nonceLe (Nat.lt_trans storable.csumTypeLt (by decide)) storable.compressionTypeLt csumFits

-- Each stripe entry reaches its pointer with no crc entry between them, and none
-- is left at the end: the order bch2_extent_ptr_decoded_append itself writes,
-- which bch2_bkey_ptrs_validate does not ask for. `pending` is a stripe entry
-- seen since the last pointer.
def stripesBeforePtrs (pending : Bool) : List BchExtentEntry → Bool
  | [] => !pending
  | .ptr _ :: rest => stripesBeforePtrs false rest
  | .crc _ :: rest => !pending && stripesBeforePtrs false rest
  | .stripePtr _ :: rest => stripesBeforePtrs true rest
  | .rebalance :: rest | .flags :: rest => stripesBeforePtrs pending rest

theorem stripesBeforePtrs_append (size : Nat) (l1 l2 : List BchExtentEntry) :
    ∀ crc hasEc ec, stripesBeforePtrs hasEc (l1 ++ l2) = true →
      stripesBeforePtrs (decodeEnd size crc hasEc ec l1).2.1 l2 = true := by
  induction l1 with
  | nil => intros; assumption
  | cons e rest ih =>
    intro crc hasEc ec ordered
    cases e with
    | ptr p => exact ih _ _ _ ordered
    | crc c =>
      obtain ⟨idle,ordered⟩ := Bool.and_eq_true_iff.mp ordered
      simp only [Bool.not_eq_true'] at idle
      subst idle
      exact ih _ _ _ ordered
    | stripePtr s => exact ih _ _ _ ordered
    | rebalance | flags => exact ih _ _ _ ordered

theorem idle_of_stripesBeforePtrs_crc {pending : Bool} {c : BchExtentCrc} {rest : List BchExtentEntry}
    (ordered : stripesBeforePtrs pending (.crc c :: rest) = true) : pending = false := by
  simp only [stripesBeforePtrs,Bool.and_eq_true,Bool.not_eq_true'] at ordered
  exact ordered.1

theorem idle_of_stripesBeforePtrs_nil {pending : Bool} (ordered : stripesBeforePtrs pending [] = true) :
    pending = false := by
  simpa [stripesBeforePtrs] using ordered

theorem decodeEnd_append_crc (size : Nat) (pre : List BchExtentEntry) (c : BchExtentCrc) (crc hasEc ec) :
    decodeEnd size crc hasEc ec (pre ++ [.crc c]) =
      (bch2ExtentCrcUnpack size (some c),(decodeEnd size crc hasEc ec pre).2.1,(decodeEnd size crc hasEc ec pre).2.2) := by
  rw [decodeEnd_append]
  rfl

theorem decodeFrom_append_crc (size : Nat) (pre : List BchExtentEntry) (c : BchExtentCrc) (crc hasEc ec) :
    bkeyPtrsDecodeFrom size crc hasEc ec (pre ++ [.crc c]) = bkeyPtrsDecodeFrom size crc hasEc ec pre := by
  rw [decodeFrom_append,List.append_right_eq_self]
  rfl

theorem bch2ExtentPtrDecodedAppend_spec {size : Nat} {entries : List BchExtentEntry} {p : ExtentPtrDecoded}
    (ordered : stripesBeforePtrs false entries = true) (storable : CrcStorable size p.crc) :
    ∃ entries' pre post, bch2ExtentPtrDecodedAppend size entries p = some entries' ∧
      (bkeyPtrsDecode size entries).map ExtentPtrDecoded.norm = pre ++ post ∧
      (bkeyPtrsDecode size entries').map ExtentPtrDecoded.norm = pre ++ p.norm :: post := by
  unfold bch2ExtentPtrDecodedAppend bkeyPtrsDecode
  by_cases first : bch2CrcUnpackedCmp (bch2ExtentCrcUnpack size none) p.crc = false
  · -- the pointer has no crc: it goes in front
    have none : bch2ExtentCrcUnpack size none = p.crc := bch2CrcUnpackedCmp_eq_false.mp first
    refine ⟨_,[],_,by rw [first]; rfl,rfl,?_⟩
    rw [insertDecoded,List.take_zero,List.drop_zero,List.nil_append,none,decodeFrom_inserted,List.nil_append]
  rw [Bool.not_eq_false] at first
  simp only [first,Bool.not_true,Bool.false_eq_true,if_false]
  cases found : findCrc size p.crc entries with
  | some i =>
    -- right after the first crc entry equal to its own, where no stripe entry waits
    obtain ⟨pre,c,post,rfl,rfl,unpacks⟩ := findCrc_split found
    have idle := idle_of_stripesBeforePtrs_crc
      (stripesBeforePtrs_append size pre _ (bch2ExtentCrcUnpack size none) false ⟨0,0,0⟩ ordered)
    have split : pre ++ BchExtentEntry.crc c :: post = (pre ++ [.crc c]) ++ post := by simp
    have length : (pre ++ [BchExtentEntry.crc c]).length = pre.length + 1 := by simp
    refine ⟨_,(bkeyPtrsDecodeFrom size (bch2ExtentCrcUnpack size none) false ⟨0,0,0⟩ (pre ++ [.crc c])).map
        ExtentPtrDecoded.norm,(bkeyPtrsDecodeFrom size p.crc false
          (decodeEnd size (bch2ExtentCrcUnpack size none) false ⟨0,0,0⟩ pre).2.2 post).map ExtentPtrDecoded.norm,rfl,?_,?_⟩
    · rw [split,decodeFrom_append,List.map_append,decodeEnd_append_crc,unpacks,idle]
    · rw [insertDecoded,split,List.take_left' length,List.drop_left' length,List.append_assoc,
        decodeFrom_append size (pre ++ [BchExtentEntry.crc c]),List.map_append,decodeEnd_append_crc,unpacks,idle,decodeFrom_inserted]
  | none =>
    -- after a new crc entry at the end
    obtain ⟨c,appended,unpacks⟩ := bch2ExtentCrcAppend_of_storable storable entries
    have idle := idle_of_stripesBeforePtrs_nil
      (stripesBeforePtrs_append size entries [] (bch2ExtentCrcUnpack size none) false ⟨0,0,0⟩ (by rw [List.append_nil]; exact ordered))
    refine ⟨insertDecoded (entries ++ [.crc c]) (entries ++ [BchExtentEntry.crc c]).length p,_,[],by rw [appended]; rfl,
      (List.append_nil _).symm,?_⟩
    rw [insertDecoded,List.take_length,List.drop_length,List.append_nil,decodeFrom_append,List.map_append,
      decodeFrom_append_crc,decodeEnd_append_crc,unpacks,idle,← List.append_nil ((if p.hasEc then _ else _) ++ _),
      decodeFrom_inserted]
    rfl

end Append

section Drop

-- The walk back of bch2_bkey_drop_ptr_noerror over the entries before the
-- pointer, given last first: stripe entries, and crc entries when dropCrc, go,
-- up to the pointer before.
def cleanRev (dropCrc : Bool) : List BchExtentEntry → List BchExtentEntry
  | [] => []
  | e :: rest =>
    if extentEntryIsPtr e then e :: rest
    else if (extentEntryIsCrc e && dropCrc) || extentEntryIsStripePtr e then cleanRev dropCrc rest
    else e :: cleanRev dropCrc rest

-- extent_entry_prev() walks the index down; on the entries before the pointer
-- that is cleanRev from their last one.
theorem dropBefore_eq (dropCrc : Bool) (l1 : List BchExtentEntry) :
    ∀ l2, dropBefore dropCrc (l1 ++ l2) l1.length = (cleanRev dropCrc l1.reverse).reverse ++ l2 := by
  induction l1 using List.reverseRecOn with
  | nil => intro l2; rfl
  | append_singleton l0 e ih =>
    intro l2
    have shape : l0 ++ [e] ++ l2 = l0 ++ e :: l2 := by simp
    have at_e : (l0 ++ e :: l2)[l0.length]? = some e := by simp
    rw [shape,List.length_append,List.length_singleton,dropBefore,at_e,List.reverse_append,List.reverse_singleton,
      List.singleton_append]
    dsimp only
    unfold cleanRev
    by_cases ptr : extentEntryIsPtr e = true
    · rw [if_pos ptr,if_pos ptr,List.reverse_cons,List.reverse_reverse,List.append_assoc,List.singleton_append]
    by_cases gone : ((extentEntryIsCrc e && dropCrc) || extentEntryIsStripePtr e) = true
    · rw [if_neg ptr,if_neg ptr,if_pos gone,if_pos gone,List.eraseIdx_append_of_length_le (Nat.le_refl _),
        Nat.sub_self,List.eraseIdx_cons_zero,ih]
    · rw [if_neg ptr,if_neg ptr,if_neg gone,if_neg gone,ih,List.reverse_cons,List.append_assoc,List.singleton_append]

theorem dropPtrEntries_middle (pre post : List BchExtentEntry) (ptr : BchExtentPtr) :
    dropPtrEntries (pre ++ .ptr ptr :: post) pre.length = (cleanRev (dropCrcAfter post) pre.reverse).reverse ++ post := by
  have erased : (pre ++ BchExtentEntry.ptr ptr :: post).eraseIdx pre.length = pre ++ post := by
    rw [List.eraseIdx_append_of_length_le (Nat.le_refl _),Nat.sub_self,List.eraseIdx_cons_zero]
  have rest : (pre ++ BchExtentEntry.ptr ptr :: post).drop (pre.length + 1) = post := by
    rw [List.drop_append,List.drop_of_length_le (by omega),Nat.add_sub_cancel_left,List.nil_append]
    rfl
  rw [dropPtrEntries,erased,rest,dropBefore_eq]

theorem decodeFrom_append_nonPtr (size : Nat) (l : List BchExtentEntry) {e : BchExtentEntry}
    (notPtr : extentEntryIsPtr e = false) (crc hasEc ec) :
    bkeyPtrsDecodeFrom size crc hasEc ec (l ++ [e]) = bkeyPtrsDecodeFrom size crc hasEc ec l := by
  rw [decodeFrom_append,List.append_right_eq_self]
  cases e with
  | ptr p => cases notPtr
  | crc c => rfl
  | stripePtr s => rfl
  | rebalance | flags => rfl

theorem decode_cleanRev (size : Nat) (dropCrc : Bool) (pre : List BchExtentEntry) (crc : BchExtentCrcUnpacked)
    (ec : BchExtentStripePtr) :
    bkeyPtrsDecodeFrom size crc false ec (cleanRev dropCrc pre.reverse).reverse = bkeyPtrsDecodeFrom size crc false ec pre ∧
      (decodeEnd size crc false ec (cleanRev dropCrc pre.reverse).reverse).2.1 = false ∧
      (dropCrc = false →
        (decodeEnd size crc false ec (cleanRev dropCrc pre.reverse).reverse).1 = (decodeEnd size crc false ec pre).1) := by
  induction pre using List.reverseRecOn with
  | nil => exact ⟨rfl,rfl,fun _ => rfl⟩
  | append_singleton l0 e ih =>
    obtain ⟨decodes,idle,keeps⟩ := ih
    rw [List.reverse_append,List.reverse_singleton,List.singleton_append]
    unfold cleanRev
    cases e with
    | ptr p =>
      -- the pointer before: the walk stops
      simp only [extentEntryIsPtr_ptr,if_true,List.reverse_cons,List.reverse_reverse]
      refine ⟨trivial,?_,fun _ => trivial⟩
      rw [decodeEnd_append]
      rfl
    | crc c =>
      cases dropCrc with
      | true =>
        simp only [extentEntryIsPtr_crc,extentEntryIsCrc_crc,Bool.and_true,Bool.true_or,Bool.false_eq_true,
          if_false,if_true]
        exact ⟨by rw [decodes,decodeFrom_append_nonPtr size l0 (extentEntryIsPtr_crc c)],idle,fun wrong => by cases wrong⟩
      | false =>
        simp only [extentEntryIsPtr_crc,extentEntryIsCrc_crc,extentEntryIsStripePtr_crc,Bool.and_false,Bool.or_false,
          Bool.false_eq_true,if_false,List.reverse_cons]
        exact ⟨by rw [decodeFrom_append_crc,decodeFrom_append_crc,decodes],by rw [decodeEnd_append_crc,idle],
          fun _ => by rw [decodeEnd_append_crc,decodeEnd_append_crc]⟩
    | stripePtr s =>
      simp only [extentEntryIsPtr_stripePtr,extentEntryIsStripePtr_stripePtr,Bool.or_true,Bool.false_eq_true,
        if_false,if_true]
      refine ⟨by rw [decodes,decodeFrom_append_nonPtr size l0 rfl],idle,fun still => ?_⟩
      rw [keeps still,decodeEnd_append]
      rfl
    | rebalance | flags =>
      -- entries the pointer code does not read stay
      simp only [extentEntryIsPtr_rebalance,extentEntryIsCrc_rebalance,extentEntryIsStripePtr_rebalance,
        extentEntryIsPtr_flags,extentEntryIsCrc_flags,extentEntryIsStripePtr_flags,
        Bool.false_and,Bool.or_false,Bool.false_eq_true,if_false,List.reverse_cons]
      refine ⟨by rw [decodeFrom_append_nonPtr size _ rfl,decodeFrom_append_nonPtr size l0 rfl,decodes],
        by rw [decodeEnd_append]; exact idle,fun still => ?_⟩
      rw [decodeEnd_append,decodeEnd_append,keeps still]
      rfl

-- When the crc goes, no pointer after the dropped one read it: the next crc
-- entry comes first.
theorem decodeFrom_norm_of_dropCrcAfter (size : Nat) (post : List BchExtentEntry) (dropped : dropCrcAfter post = true) :
    ∀ crc crc' hasEc ec ec', (hasEc = true → ec = ec') →
      (bkeyPtrsDecodeFrom size crc hasEc ec post).map ExtentPtrDecoded.norm =
        (bkeyPtrsDecodeFrom size crc' hasEc ec' post).map ExtentPtrDecoded.norm := by
  induction post with
  | nil => intros; rfl
  | cons e rest ih =>
    intro crc crc' hasEc ec ec' same
    cases e with
    | ptr p => simp only [dropCrcAfter,extentEntryIsCrc_ptr,extentEntryIsPtr_ptr,if_true,Bool.false_eq_true,if_false,
        Bool.false_eq_true] at dropped
    | crc c => exact decodeFrom_norm_ec size rest _ hasEc ec ec' same
    | stripePtr s => exact ih dropped _ _ true s s fun _ => rfl
    | rebalance | flags => exact ih dropped _ _ hasEc ec ec' same

theorem ExtentPtrDecoded.norm_ptr (d : ExtentPtrDecoded) : d.norm.ptr = d.ptr := by
  unfold ExtentPtrDecoded.norm
  split <;> rfl

theorem dropPtrEntries_split (size : Nat) (pre post : List BchExtentEntry) (ptr : BchExtentPtr) :
    ∃ before d after, (bkeyPtrsDecode size (pre ++ .ptr ptr :: post)).map ExtentPtrDecoded.norm = before ++ d :: after ∧
      d.ptr = ptr ∧
      (bkeyPtrsDecode size (dropPtrEntries (pre ++ .ptr ptr :: post) pre.length)).map ExtentPtrDecoded.norm =
        before ++ after := by
  rw [dropPtrEntries_middle]
  unfold bkeyPtrsDecode
  generalize startCrc : bch2ExtentCrcUnpack size none = crc
  obtain ⟨decodes,idle,keeps⟩ := decode_cleanRev size (dropCrcAfter post) pre crc ⟨0,0,0⟩
  generalize stDef : decodeEnd size crc false ⟨0,0,0⟩ pre = st
  refine ⟨(bkeyPtrsDecodeFrom size crc false ⟨0,0,0⟩ pre).map ExtentPtrDecoded.norm,
    ExtentPtrDecoded.norm ⟨st.2.1,st.1,ptr,st.2.2⟩,(bkeyPtrsDecodeFrom size st.1 false st.2.2 post).map ExtentPtrDecoded.norm,
    ?_,ExtentPtrDecoded.norm_ptr _,?_⟩
  · rw [decodeFrom_append,stDef,List.map_append]
    rfl
  · rw [decodeFrom_append,decodes,List.map_append,idle]
    -- the pointers after read the same crc, or a crc of their own
    cases dropCrc : dropCrcAfter post with
    | false =>
      rw [dropCrc] at keeps
      rw [keeps rfl,stDef,decodeFrom_norm_ec size post _ false _ _ (fun wrong => by cases wrong)]
    | true => rw [decodeFrom_norm_of_dropCrcAfter size post dropCrc _ st.1 false _ st.2.2 (fun wrong => by cases wrong)]

-- Every crc entry has a pointer after it before the next crc entry.
def crcsUsed : List BchExtentEntry → Bool
  | [] => true
  | .crc _ :: rest => !dropCrcAfter rest && crcsUsed rest
  | _ :: rest => crcsUsed rest

-- dropCrcAfter and crcsUsed on l followed by entries on which dropCrcAfter gives tail.
def dropCrcAfterThen (tail : Bool) : List BchExtentEntry → Bool
  | [] => tail
  | e :: rest => if extentEntryIsCrc e then true else if extentEntryIsPtr e then false else dropCrcAfterThen tail rest

def crcsUsedThen (tail : Bool) : List BchExtentEntry → Bool
  | [] => true
  | .crc _ :: rest => !dropCrcAfterThen tail rest && crcsUsedThen tail rest
  | _ :: rest => crcsUsedThen tail rest

theorem dropCrcAfterThen_append (tail : Bool) (l1 l2 : List BchExtentEntry) :
    dropCrcAfterThen tail (l1 ++ l2) = dropCrcAfterThen (dropCrcAfterThen tail l2) l1 := by
  induction l1 with
  | nil => rfl
  | cons e rest ih => simp only [List.cons_append,dropCrcAfterThen,ih]

theorem dropCrcAfter_append (l1 l2 : List BchExtentEntry) :
    dropCrcAfter (l1 ++ l2) = dropCrcAfterThen (dropCrcAfter l2) l1 := by
  induction l1 with
  | nil => rfl
  | cons e rest ih => simp only [List.cons_append,dropCrcAfter,dropCrcAfterThen,ih]

theorem crcsUsedThen_append (tail : Bool) (l1 l2 : List BchExtentEntry) :
    crcsUsedThen tail (l1 ++ l2) = (crcsUsedThen (dropCrcAfterThen tail l2) l1 && crcsUsedThen tail l2) := by
  induction l1 with
  | nil => simp [crcsUsedThen]
  | cons e rest ih =>
    cases e <;> simp only [List.cons_append,crcsUsedThen,ih,dropCrcAfterThen_append,Bool.and_assoc]

theorem crcsUsed_append (l1 l2 : List BchExtentEntry) :
    crcsUsed (l1 ++ l2) = (crcsUsedThen (dropCrcAfter l2) l1 && crcsUsed l2) := by
  induction l1 with
  | nil => simp [crcsUsedThen]
  | cons e rest ih =>
    cases e <;> simp only [List.cons_append,crcsUsed,crcsUsedThen,ih,dropCrcAfter_append,Bool.and_assoc]

-- The walk back leaves no crc unused: the ones it keeps either sit before the
-- pointer before, or were kept because a pointer follows the dropped one. The
-- induction runs from the last entry, with the tail seen by each side free.
theorem crcsUsedThen_cleanRev (dropCrc : Bool) (pre : List BchExtentEntry) :
    ∀ tail tail', crcsUsedThen tail pre = true → (dropCrc = true ∨ tail' = tail) →
      crcsUsedThen tail' (cleanRev dropCrc pre.reverse).reverse = true := by
  induction pre using List.reverseRecOn with
  | nil => intros; rfl
  | append_singleton l0 e ih =>
    intro tail tail' used agree
    rw [crcsUsedThen_append] at used
    obtain ⟨usedBefore,usedLast⟩ := Bool.and_eq_true_iff.mp used
    rw [List.reverse_append,List.reverse_singleton,List.singleton_append]
    unfold cleanRev
    cases e with
    | ptr p =>
      simp only [extentEntryIsPtr_ptr,if_true,List.reverse_cons,List.reverse_reverse,crcsUsedThen_append]
      exact Bool.and_eq_true_iff.mpr ⟨usedBefore,rfl⟩
    | crc c =>
      simp only [dropCrcAfterThen,extentEntryIsCrc_crc,if_true] at usedBefore
      cases dropCrc with
      | true =>
        simp only [extentEntryIsPtr_crc,extentEntryIsCrc_crc,Bool.and_true,Bool.true_or,Bool.false_eq_true,
          if_false,if_true]
        exact ih true tail' usedBefore (.inl rfl)
      | false =>
        -- a kept crc is the last before the dropped pointer, read by the next one
        simp only [extentEntryIsPtr_crc,extentEntryIsCrc_crc,extentEntryIsStripePtr_crc,Bool.and_false,Bool.or_false,
          Bool.false_eq_true,if_false,List.reverse_cons,crcsUsedThen_append,dropCrcAfterThen,if_true]
        have sameTail : tail' = tail := agree.resolve_left (fun wrong => by cases wrong)
        subst sameTail
        exact Bool.and_eq_true_iff.mpr ⟨ih true true usedBefore (.inr rfl),usedLast⟩
    | stripePtr s =>
      simp only [extentEntryIsPtr_stripePtr,extentEntryIsStripePtr_stripePtr,Bool.or_true,Bool.false_eq_true,
        if_false,if_true]
      exact ih tail tail' usedBefore agree
    | rebalance | flags =>
      simp only [extentEntryIsPtr_rebalance,extentEntryIsCrc_rebalance,extentEntryIsStripePtr_rebalance,
        extentEntryIsPtr_flags,extentEntryIsCrc_flags,extentEntryIsStripePtr_flags,
        Bool.false_and,Bool.or_false,Bool.false_eq_true,if_false,List.reverse_cons,crcsUsedThen_append]
      exact Bool.and_eq_true_iff.mpr ⟨ih tail tail' usedBefore agree,rfl⟩

theorem crcsUsed_dropPtrEntries (pre post : List BchExtentEntry) (ptr : BchExtentPtr)
    (used : crcsUsed (pre ++ .ptr ptr :: post) = true) :
    crcsUsed (dropPtrEntries (pre ++ .ptr ptr :: post) pre.length) = true := by
  rw [crcsUsed_append] at used
  obtain ⟨usedPre,usedPost⟩ := Bool.and_eq_true_iff.mp used
  rw [dropPtrEntries_middle,crcsUsed_append]
  refine Bool.and_eq_true_iff.mpr ⟨crcsUsedThen_cleanRev _ pre _ _ usedPre ?_,usedPost⟩
  cases dropCrcAfter post
  · exact .inr rfl
  · exact .inl rfl

end Drop

theorem dropPtrEntries_spec (size : Nat) {entries : List BchExtentEntry} {i : Nat} {ptr : BchExtentPtr}
    (found : entries[i]? = some (.ptr ptr)) :
    ∃ d, d.ptr = ptr ∧
      ((bkeyPtrsDecode size entries).map ExtentPtrDecoded.norm).Perm
        (d :: (bkeyPtrsDecode size (dropPtrEntries entries i)).map ExtentPtrDecoded.norm) ∧
      (crcsUsed entries = true → crcsUsed (dropPtrEntries entries i) = true) := by
  have inside : i < entries.length := (List.getElem?_eq_some_iff.mp found).1
  have split : entries = entries.take i ++ .ptr ptr :: entries.drop (i + 1) := by
    rw [← (List.getElem?_eq_some_iff.mp found).2,List.getElem_cons_drop,List.take_append_drop]
  have length : (entries.take i).length = i := List.length_take_of_le (Nat.le_of_lt inside)
  obtain ⟨before,d,after,old,named,new⟩ := dropPtrEntries_split size (entries.take i) (entries.drop (i + 1)) ptr
  rw [← split] at old
  rw [← split,length] at new
  refine ⟨d,named,?_,fun used => ?_⟩
  · rw [old,new]
    exact List.perm_middle
  · have kept := crcsUsed_dropPtrEntries (entries.take i) (entries.drop (i + 1)) ptr (by rw [← split]; exact used)
    rwa [← split,length] at kept

-- bch2_extent_ptr_decoded_append on an extent whose stripe entries sit right
-- before their pointers, with a pointer whose crc the key can store, adds that
-- pointer to the decoded ones and changes none of the others;
-- bch2_bkey_drop_ptr_noerror takes exactly the dropped one away, and leaves no
-- crc entry unused that was used before.
theorem ptr_append_drop_keep_decoded (size : Nat) (entries : List BchExtentEntry) :
    (stripesBeforePtrs false entries = true → ∀ p : ExtentPtrDecoded, CrcStorable size p.crc →
      ∃ entries', bch2ExtentPtrDecodedAppend size entries p = some entries' ∧
        ((bkeyPtrsDecode size entries').map ExtentPtrDecoded.norm).Perm
          (p.norm :: (bkeyPtrsDecode size entries).map ExtentPtrDecoded.norm)) ∧
    (∀ i ptr, entries[i]? = some (.ptr ptr) →
      ∃ entries' d, bch2BkeyDropPtrNoerror (.extent entries) i = .extent entries' ∧ d.ptr = ptr ∧
        ((bkeyPtrsDecode size entries).map ExtentPtrDecoded.norm).Perm
          (d :: (bkeyPtrsDecode size entries').map ExtentPtrDecoded.norm) ∧
        (crcsUsed entries = true → crcsUsed entries' = true)) := by
  refine ⟨fun ordered p storable => ?_,fun i ptr found => ?_⟩
  · obtain ⟨entries',pre,post,appended,old,new⟩ := bch2ExtentPtrDecodedAppend_spec ordered storable
    refine ⟨entries',appended,?_⟩
    rw [old,new]
    exact List.perm_middle
  · obtain ⟨d,named,perm,used⟩ := dropPtrEntries_spec size found
    exact ⟨_,d,rfl,named,perm,used⟩

-- An lz4 blob at sector 228 of device 0 (the merge tests' geometry), its pointer
-- erasure coded; a second pointer of the same blob on device 1.
def appendTestPtr1 : BchExtentPtr := ⟨false,false,228,0,0,by decide,zero_lt_extentPtrFieldMax,zero_lt_extentPtrFieldMax⟩

def appendTestCrc : BchExtentCrcUnpacked := bch2ExtentCrcUnpack 8 (some mergeTestCrc)

def appendTestPtr (hasEc : Bool) : ExtentPtrDecoded :=
  ⟨hasEc,appendTestCrc,⟨false,false,500,1,0,by decide,by decide,zero_lt_extentPtrFieldMax⟩,⟨1,2,3⟩⟩

theorem storable_appendTestCrc : CrcStorable 8 appendTestCrc :=
  ⟨rfl,by decide,by decide,by decide,by decide,by decide,by decide,by decide,by decide,fun bytes found => by
    simp only [appendTestCrc,bch2ExtentCrcUnpack,mergeTestCrc,BCH_CSUM_none,bchCrcBytes] at found
    cases found
    decide⟩

theorem ptr_append_drop_test :
    stripesBeforePtrs false [.crc mergeTestCrc,.ptr appendTestPtr1] = true ∧
      CrcStorable 8 (appendTestPtr true).crc ∧ [BchExtentEntry.crc mergeTestCrc,.ptr appendTestPtr1][1]? = some (.ptr appendTestPtr1) ∧
      (∃ entries', bch2ExtentPtrDecodedAppend 8 [.crc mergeTestCrc,.ptr appendTestPtr1] (appendTestPtr true) = some entries' ∧
        ((bkeyPtrsDecode 8 entries').map ExtentPtrDecoded.norm).Perm
          ((appendTestPtr true).norm :: (bkeyPtrsDecode 8 [.crc mergeTestCrc,.ptr appendTestPtr1]).map ExtentPtrDecoded.norm)) ∧
      ∃ entries' d, bch2BkeyDropPtrNoerror (.extent [.crc mergeTestCrc,.ptr appendTestPtr1]) 1 = .extent entries' ∧
        d.ptr = appendTestPtr1 ∧
        ((bkeyPtrsDecode 8 [.crc mergeTestCrc,.ptr appendTestPtr1]).map ExtentPtrDecoded.norm).Perm
          (d :: (bkeyPtrsDecode 8 entries').map ExtentPtrDecoded.norm) ∧
        (crcsUsed [.crc mergeTestCrc,.ptr appendTestPtr1] = true → crcsUsed entries' = true) := by
  have keeps := ptr_append_drop_keep_decoded 8 [.crc mergeTestCrc,.ptr appendTestPtr1]
  exact ⟨by decide,storable_appendTestCrc,rfl,keeps.1 (by decide) _ (storable_appendTestCrc),
    keeps.2 1 appendTestPtr1 rfl⟩

-- bch2_bkey_ptrs_validate takes a stripe entry in front of the crc of its
-- pointer. Appending a pointer of the same crc puts it right after the crc, so
-- the new pointer is read as erasure coded and the old one loses its stripe.
theorem ptr_append_stripe_before_crc :
    bch2BkeyPtrsValidate mergeTestFs ⟨false,true⟩
        ⟨⟨1,8,0⟩,8,.extent [.stripePtr ⟨1,2,3⟩,.crc mergeTestCrc,.ptr appendTestPtr1],by decide⟩ = .ok () ∧
      stripesBeforePtrs false [.stripePtr ⟨1,2,3⟩,.crc mergeTestCrc,.ptr appendTestPtr1] = false ∧
      CrcStorable 8 (appendTestPtr false).crc ∧
      ∃ entries', bch2ExtentPtrDecodedAppend 8 [.stripePtr ⟨1,2,3⟩,.crc mergeTestCrc,.ptr appendTestPtr1]
          (appendTestPtr false) = some entries' ∧
        ¬ ((bkeyPtrsDecode 8 entries').map ExtentPtrDecoded.norm).Perm
          ((appendTestPtr false).norm ::
            (bkeyPtrsDecode 8 [.stripePtr ⟨1,2,3⟩,.crc mergeTestCrc,.ptr appendTestPtr1]).map ExtentPtrDecoded.norm) :=
  ⟨by decide,by decide,storable_appendTestCrc,_,rfl,by decide⟩

end Bcachefs
