import Bcachefs.Util.Crc
import Bcachefs.Extents.Entry
import Bcachefs.Bkey.FormatState
import Bcachefs.Lib.Loop

namespace Bcachefs
open Loop

-- The rest of enum bch_csum_type.
def BCH_CSUM_crc32c_nonzero : Nat := 1
def BCH_CSUM_crc64_nonzero : Nat := 2
def BCH_CSUM_xxhash : Nat := 7

def U32_MAX : UInt32 := 0xFFFFFFFF
def PAGE_SIZE : Nat := 4096

-- The types bch2_checksum_init, _update and _final know; on any other they BUG().
def bch2ChecksumStateType (type : Nat) : Bool :=
  type == BCH_CSUM_none || type == BCH_CSUM_crc32c_nonzero || type == BCH_CSUM_crc64_nonzero ||
    type == BCH_CSUM_crc32c || type == BCH_CSUM_crc64 || type == BCH_CSUM_xxhash

-- The xxh64 and poly1305 code the checksums call, which the model does not compute:
-- xxh64_reset(.., 0), xxh64_update and xxh64_digest over a state σ, and
-- bch2_poly1305_init for a nonce under the filesystem's key, poly1305_update and
-- poly1305_final over a state π.
structure ChecksumHashes (ν σ π : Type) where
  xxh64Reset : σ
  xxh64Update : σ → List UInt8 → σ
  xxh64Digest : σ → UInt64
  poly1305Init : ν → π
  poly1305Update : π → List UInt8 → π
  poly1305Final : π → BchCsum

-- What both streaming interfaces promise: bytes taken in two pieces are taken in as
-- one, and no bytes change nothing.
structure ChecksumHashes.Streams {ν σ π : Type} (h : ChecksumHashes ν σ π) : Prop where
  xxh64_nil : ∀ s, h.xxh64Update s [] = s
  xxh64_append : ∀ s x y, h.xxh64Update (h.xxh64Update s x) y = h.xxh64Update s (x ++ y)
  poly1305_nil : ∀ s, h.poly1305Update s [] = s
  poly1305_append : ∀ s x y, h.poly1305Update (h.poly1305Update s x) y = h.poly1305Update s (x ++ y)

-- struct bch2_checksum_state. The union holds the seed of the CRC types or the xxh64
-- state of xxhash; the model keeps both, and only xxhash reads h64state. The type is
-- one the three functions know, so their BUG() is out of reach.
structure Bch2ChecksumState (σ : Type) where
  seed : UInt64
  h64state : σ
  type : Nat
  known : bch2ChecksumStateType type = true

section Hashes

variable {ν σ π : Type} (h : ChecksumHashes ν σ π)

def bch2ChecksumInit (type : Nat) (known : bch2ChecksumStateType type = true) : Bch2ChecksumState σ :=
  if type = BCH_CSUM_none ∨ type = BCH_CSUM_crc32c ∨ type = BCH_CSUM_crc64 then ⟨0,h.xxh64Reset,type,known⟩
  else if type = BCH_CSUM_crc32c_nonzero then ⟨U32_MAX.toUInt64,h.xxh64Reset,type,known⟩
  else if type = BCH_CSUM_crc64_nonzero then ⟨U64_MAX,h.xxh64Reset,type,known⟩
  -- xxh64_reset(&state->h64state, 0)
  else ⟨0,h.xxh64Reset,type,known⟩

-- crc32c takes a u32 seed: the upper half of state->seed is dropped.
def bch2ChecksumUpdate (state : Bch2ChecksumState σ) (data : List UInt8) : Bch2ChecksumState σ :=
  if state.type = BCH_CSUM_none then state
  else if state.type = BCH_CSUM_crc32c_nonzero ∨ state.type = BCH_CSUM_crc32c then
    { state with seed := (crc32c state.seed.toUInt32 data).toUInt64 }
  else if state.type = BCH_CSUM_crc64_nonzero ∨ state.type = BCH_CSUM_crc64 then
    { state with seed := crc64Be state.seed data }
  else { state with h64state := h.xxh64Update state.h64state data }

-- memcpy(&ret, digest, bch_crc_bytes[type]): the first 10 or 16 bytes of the poly1305
-- digest, read as two little-endian words.
def bch2CsumOfDigest (type : Nat) (digest : BchCsum) : BchCsum :=
  ⟨digest.lo,if type = BCH_CSUM_chacha20_poly1305_80 then digest.hi &&& 0xFFFF else digest.hi⟩

-- One pass of bch2_checksum_merge's loop over the zero page. min_t(unsigned, b_len,
-- PAGE_SIZE) casts b_len to 32 bits before it compares.
def bch2ChecksumMergeStep : Bch2ChecksumState σ × Nat → Step (Bch2ChecksumState σ × Nat) (Bch2ChecksumState σ) Empty
  | (state,bLen) =>
    if bLen = 0 then .done state
    else
      let pageLen := min (bLen % 2^32) PAGE_SIZE
      .next (bch2ChecksumUpdate h state (List.replicate pageLen 0),bLen - pageLen)

-- A loop that stops takes at most 2^32 / PAGE_SIZE passes.
def CHECKSUM_MERGE_FUEL : Nat := 2^20 + 1

def bch2ChecksumFinal (state : Bch2ChecksumState σ) : UInt64 :=
  if state.type = BCH_CSUM_none ∨ state.type = BCH_CSUM_crc32c ∨ state.type = BCH_CSUM_crc64 then state.seed
  else if state.type = BCH_CSUM_crc32c_nonzero then state.seed ^^^ U32_MAX.toUInt64
  else if state.type = BCH_CSUM_crc64_nonzero then state.seed ^^^ U64_MAX
  else h.xxh64Digest state.h64state

def bch2Checksum (type : Nat) (nonce : ν) (data : List UInt8) : BchCsum :=
  if known : bch2ChecksumStateType type = true then
    ⟨bch2ChecksumFinal h (bch2ChecksumUpdate h (bch2ChecksumInit h type known) data),0⟩
  else if bch2CsumTypeIsEncryption type then
    bch2CsumOfDigest type (h.poly1305Final (h.poly1305Update (h.poly1305Init nonce) data))
  else ⟨0,0⟩

-- __bch2_checksum_bio over the segments of a bio.
def bch2ChecksumBio (type : Nat) (nonce : ν) (segments : List (List UInt8)) : BchCsum :=
  if type = BCH_CSUM_none then ⟨0,0⟩
  else if known : bch2ChecksumStateType type = true then
    ⟨bch2ChecksumFinal h (segments.foldl (bch2ChecksumUpdate h) (bch2ChecksumInit h type known)),0⟩
  else if bch2CsumTypeIsEncryption type then
    bch2CsumOfDigest type (h.poly1305Final (segments.foldl h.poly1305Update (h.poly1305Init nonce)))
  else ⟨0,0⟩

def bch2ChecksumMerge (type : Nat) (a b : BchCsum) (bLen : Nat) : Option BchCsum :=
  if known : bch2ChecksumStateType type = true then
    if bch2ChecksumMergeable type then
      match run (bch2ChecksumMergeStep h) CHECKSUM_MERGE_FUEL ({ bch2ChecksumInit h type known with seed := a.lo },bLen) with
      | some (.ok state) => some ⟨bch2ChecksumFinal h state ^^^ b.lo,a.hi ^^^ b.hi⟩
      | _ => none
    -- BUG_ON(!bch2_checksum_mergeable(type))
    else none
  -- the BUG() of bch2_checksum_init
  else none

-- The merge loop of bch2_rechecksum_bio: merged starts at { 0 } and takes in each
-- split's checksum and its length in bytes.
def rechecksumMerged (type : Nat) (splits : List (BchCsum × Nat)) : Option BchCsum :=
  splits.foldlM (fun merged split => bch2ChecksumMerge h type merged split.1 split.2) ⟨0,0⟩

end Hashes

theorem bch2ChecksumStateType_cases {type : Nat} (known : bch2ChecksumStateType type = true) :
    type = BCH_CSUM_none ∨ type = BCH_CSUM_crc32c_nonzero ∨ type = BCH_CSUM_crc64_nonzero ∨
      type = BCH_CSUM_crc32c ∨ type = BCH_CSUM_crc64 ∨ type = BCH_CSUM_xxhash := by
  simp only [bch2ChecksumStateType,Bool.or_eq_true,beq_iff_eq] at known
  unfold BCH_CSUM_none BCH_CSUM_crc32c_nonzero BCH_CSUM_crc64_nonzero BCH_CSUM_crc32c BCH_CSUM_crc64 BCH_CSUM_xxhash at known ⊢
  omega

theorem bch2ChecksumMergeable_cases {type : Nat} (mergeable : bch2ChecksumMergeable type = true) :
    type = BCH_CSUM_none ∨ type = BCH_CSUM_crc32c ∨ type = BCH_CSUM_crc64 := by
  simp only [bch2ChecksumMergeable,Bool.or_eq_true,beq_iff_eq] at mergeable
  unfold BCH_CSUM_none BCH_CSUM_crc32c BCH_CSUM_crc64 at mergeable ⊢
  omega

theorem bch2ChecksumStateType_of_mergeable {type : Nat} (mergeable : bch2ChecksumMergeable type = true) :
    bch2ChecksumStateType type = true := by
  rcases bch2ChecksumMergeable_cases mergeable with rfl | rfl | rfl <;> decide

section Laws

variable {ν σ π : Type} (h : ChecksumHashes ν σ π)

@[simp] theorem bch2ChecksumInit_type {type : Nat} (known : bch2ChecksumStateType type = true) :
    (bch2ChecksumInit h type known).type = type := by
  unfold bch2ChecksumInit
  split_ifs <;> rfl

theorem ne_xxhash_of_mergeable {type : Nat} (mergeable : bch2ChecksumMergeable type = true) :
    type ≠ BCH_CSUM_xxhash := by
  rcases bch2ChecksumMergeable_cases mergeable with rfl | rfl | rfl <;> decide

section Update

variable (state : Bch2ChecksumState σ)

@[simp] theorem bch2ChecksumUpdate_type (data : List UInt8) : (bch2ChecksumUpdate h state data).type = state.type := by
  unfold bch2ChecksumUpdate
  split_ifs <;> rfl

-- Updating twice is updating once with both: the type, and so the branch, is kept,
-- crc32c gets back the seed it gave, and xxhash needs xxh64_update to stream.
theorem bch2ChecksumUpdate_append (x y : List UInt8)
    (xxh : state.type = BCH_CSUM_xxhash →
      h.xxh64Update (h.xxh64Update state.h64state x) y = h.xxh64Update state.h64state (x ++ y)) :
    bch2ChecksumUpdate h (bch2ChecksumUpdate h state x) y = bch2ChecksumUpdate h state (x ++ y) := by
  unfold bch2ChecksumUpdate
  split_ifs with none crc32 crc64
  · rfl
  · simp [UInt32.toUInt32_toUInt64]
  · simp
  · -- the one type left
    have xxhash : state.type = BCH_CSUM_xxhash := by
      rcases bch2ChecksumStateType_cases state.known with is | is | is | is | is | is <;> simp_all
    simp [xxh xxhash]

theorem bch2ChecksumUpdate_foldl (streams : h.Streams) (x : List UInt8) :
    ∀ segments : List (List UInt8),
      segments.foldl (bch2ChecksumUpdate h) (bch2ChecksumUpdate h state x) =
        bch2ChecksumUpdate h state (x ++ segments.flatten)
  | [] => by rw [List.foldl_nil,List.flatten_nil,List.append_nil]
  | segment :: segments => by
    rw [List.foldl_cons,bch2ChecksumUpdate_append h state x segment fun _ => streams.xxh64_append _ _ _,
      bch2ChecksumUpdate_foldl streams (x ++ segment) segments,List.flatten_cons,List.append_assoc]

end Update

theorem poly1305Update_foldl (streams : h.Streams) :
    ∀ (s : π) (segments : List (List UInt8)), segments.foldl h.poly1305Update s = h.poly1305Update s segments.flatten
  | s,[] => (streams.poly1305_nil s).symm
  | s,segment :: segments => by
    rw [List.foldl_cons,poly1305Update_foldl streams _ segments,streams.poly1305_append,List.flatten_cons]

theorem bch2ChecksumUpdate_init_nil (streams : h.Streams) {type : Nat} (known : bch2ChecksumStateType type = true) :
    bch2ChecksumUpdate h (bch2ChecksumInit h type known) [] = bch2ChecksumInit h type known := by
  rcases bch2ChecksumStateType_cases known with rfl | rfl | rfl | rfl | rfl | rfl <;>
    simp +decide only [↓reduceIte,bch2ChecksumUpdate,bch2ChecksumInit,crc32c,crc32cDefault,crc64Be,List.foldl_nil,
      UInt32.toUInt32_toUInt64,UInt64.toUInt32_ofNat,UInt32.toUInt64_ofNat,streams.xxh64_nil]

theorem run_mergeStep_done (state : Bch2ChecksumState σ) (fuel : Nat) :
    run (bch2ChecksumMergeStep h) (fuel+1) (state,0) = some (.ok state) :=
  run_done rfl fuel

-- Below 2^32 bytes the cast keeps b_len, every pass takes a page or what is left, and
-- the loop feeds the register as many zero bytes as b_len.
theorem run_mergeStep_pages :
    ∀ fuel (state : Bch2ChecksumState σ) bLen, state.type ≠ BCH_CSUM_xxhash → 0 < bLen → bLen < 2^32 →
      (bLen + PAGE_SIZE - 1) / PAGE_SIZE < fuel →
      run (bch2ChecksumMergeStep h) fuel (state,bLen) = some (.ok (bch2ChecksumUpdate h state (List.replicate bLen 0)))
  | 0,_,_,_,_,_,enough => absurd enough (Nat.not_lt_zero _)
  | fuel+1,state,bLen,crc,positive,fits,enough => by
    have page : min (bLen % 2^32) PAGE_SIZE = min bLen PAGE_SIZE := by rw [Nat.mod_eq_of_lt fits]
    have stepped : bch2ChecksumMergeStep h (state,bLen) =
        .next (bch2ChecksumUpdate h state (List.replicate (min bLen PAGE_SIZE) 0),bLen - min bLen PAGE_SIZE) := by
      rw [bch2ChecksumMergeStep,if_neg (Nat.pos_iff_ne_zero.mp positive),page]
    rw [run_next stepped]
    unfold PAGE_SIZE at enough ⊢
    by_cases last : bLen ≤ 4096
    · obtain ⟨fuel,rfl⟩ : ∃ f, fuel = f + 1 := ⟨fuel - 1,by omega⟩
      rw [Nat.min_eq_left last,Nat.sub_self,run_mergeStep_done]
    · have rest := run_mergeStep_pages fuel (bch2ChecksumUpdate h state (List.replicate 4096 0)) (bLen - 4096)
        (by rwa [bch2ChecksumUpdate_type]) (by omega) (by omega) (by unfold PAGE_SIZE; omega)
      rw [Nat.min_eq_right (by omega),rest,bch2ChecksumUpdate_append h state _ _ (absurd · crc),← List.replicate_add,
        Nat.add_sub_cancel' (by omega)]

-- From 2^32 bytes on the loop never stops: the cast takes b_len mod 2^32, so each pass
-- takes at most that remainder and b_len stays at least 2^32; once it is a multiple
-- of 2^32 the pass takes nothing.
theorem run_mergeStep_never_stops :
    ∀ fuel (state : Bch2ChecksumState σ) bLen, 2^32 ≤ bLen → run (bch2ChecksumMergeStep h) fuel (state,bLen) = none
  | 0,_,_,_ => rfl
  | fuel+1,state,bLen,wraps => by
    have stepped : bch2ChecksumMergeStep h (state,bLen) =
        .next (bch2ChecksumUpdate h state (List.replicate (min (bLen % 2^32) PAGE_SIZE) 0),
          bLen - min (bLen % 2^32) PAGE_SIZE) := by
      rw [bch2ChecksumMergeStep,if_neg (by omega)]
    rw [run_next stepped]
    exact run_mergeStep_never_stops fuel _ _ (by omega)

theorem bch2ChecksumBio_eq (streams : h.Streams) (type : Nat) (nonce : ν) (segments : List (List UInt8)) :
    bch2ChecksumBio h type nonce segments = bch2Checksum h type nonce segments.flatten := by
  unfold bch2ChecksumBio bch2Checksum
  by_cases none : type = BCH_CSUM_none
  · subst none
    simp +decide only [↓reduceIte,↓reduceDIte,bch2ChecksumUpdate,bch2ChecksumInit,bch2ChecksumFinal]
  by_cases known : bch2ChecksumStateType type = true
  · have folded := bch2ChecksumUpdate_foldl h (bch2ChecksumInit h type known) streams [] segments
    rw [bch2ChecksumUpdate_init_nil h streams known,List.nil_append] at folded
    rw [if_neg none,dif_pos known,dif_pos known,folded]
  · rw [if_neg none,dif_neg known,dif_neg known,poly1305Update_foldl h streams]

-- For the mergeable types the state is its seed: final reads it back, so a state seeded
-- with the checksum of some bytes is the state after them.
theorem bch2ChecksumInit_reseed {type : Nat} (mergeable : bch2ChecksumMergeable type = true)
    (known : bch2ChecksumStateType type = true) (data : List UInt8) :
    { bch2ChecksumInit h type known with seed := bch2ChecksumFinal h (bch2ChecksumUpdate h (bch2ChecksumInit h type known) data) } =
      bch2ChecksumUpdate h (bch2ChecksumInit h type known) data := by
  rcases bch2ChecksumMergeable_cases mergeable with rfl | rfl | rfl <;>
    simp +decide only [↓reduceIte,bch2ChecksumUpdate,bch2ChecksumInit,bch2ChecksumFinal]

-- The identity bch2_checksum_merge rests on, for each mergeable type: zero bytes from
-- a seed, plus the bytes from the initial state, is the bytes from the seed. The types
-- with a nonzero initial seed or a final xor are the ones it fails for.
theorem bch2ChecksumFinal_zeros_xor {type : Nat} (mergeable : bch2ChecksumMergeable type = true)
    (known : bch2ChecksumStateType type = true) (seed : UInt64) (data : List UInt8) :
    bch2ChecksumFinal h (bch2ChecksumUpdate h { bch2ChecksumInit h type known with seed } (List.replicate data.length 0)) ^^^
        bch2ChecksumFinal h (bch2ChecksumUpdate h (bch2ChecksumInit h type known) data) =
      bch2ChecksumFinal h (bch2ChecksumUpdate h { bch2ChecksumInit h type known with seed } data) := by
  rcases bch2ChecksumMergeable_cases mergeable with rfl | rfl | rfl <;>
    simp +decide only [↓reduceIte,bch2ChecksumUpdate,bch2ChecksumInit,bch2ChecksumFinal,UInt64.toUInt32_ofNat]
  · exact UInt64.xor_zero
  · rw [← UInt32.toUInt64_xor,crc32c_zeros_xor]
  · exact crc64Be_zeros_xor seed data

theorem bch2ChecksumMerge_checksum {type : Nat} (mergeable : bch2ChecksumMergeable type = true)
    (nA nB nAB : ν) (A B : List UInt8) (fits : B.length < 2^32) :
    bch2ChecksumMerge h type (bch2Checksum h type nA A) (bch2Checksum h type nB B) B.length =
      some (bch2Checksum h type nAB (A ++ B)) := by
  have known := bch2ChecksumStateType_of_mergeable mergeable
  have crc : (bch2ChecksumInit h type known).type ≠ BCH_CSUM_xxhash := by
    rw [bch2ChecksumInit_type]
    exact ne_xxhash_of_mergeable mergeable
  have reseed := bch2ChecksumInit_reseed h mergeable known A
  -- the loop feeds the state after A as many zeros as B has bytes
  have loop : run (bch2ChecksumMergeStep h) CHECKSUM_MERGE_FUEL
      ({ bch2ChecksumInit h type known with seed := bch2ChecksumFinal h (bch2ChecksumUpdate h (bch2ChecksumInit h type known) A) },
        B.length) =
      some (.ok (bch2ChecksumUpdate h (bch2ChecksumUpdate h (bch2ChecksumInit h type known) A) (List.replicate B.length 0))) := by
    rw [reseed]
    by_cases empty : B.length = 0
    · rw [empty,List.replicate_zero,bch2ChecksumUpdate_append h _ _ _ (absurd · crc),List.append_nil]
      exact run_mergeStep_done h _ _
    · exact run_mergeStep_pages h _ _ _ (by rwa [bch2ChecksumUpdate_type]) (by omega) fits
        (by unfold CHECKSUM_MERGE_FUEL PAGE_SIZE; omega)
  have lo := bch2ChecksumFinal_zeros_xor h mergeable known
    (bch2ChecksumFinal h (bch2ChecksumUpdate h (bch2ChecksumInit h type known) A)) B
  rw [reseed,bch2ChecksumUpdate_append h (bch2ChecksumInit h type known) A B (absurd · crc)] at lo
  unfold bch2ChecksumMerge bch2Checksum
  simp only [dif_pos known,if_pos mergeable]
  rw [loop]
  dsimp only
  rw [lo,UInt64.xor_self]

theorem bch2Checksum_nil_of_mergeable {type : Nat} (mergeable : bch2ChecksumMergeable type = true) (nonce : ν) :
    bch2Checksum h type nonce [] = ⟨0,0⟩ := by
  rcases bch2ChecksumMergeable_cases mergeable with rfl | rfl | rfl <;>
    simp +decide only [↓reduceIte,↓reduceDIte,bch2Checksum,bch2ChecksumUpdate,bch2ChecksumInit,bch2ChecksumFinal,
      crc32c,crc32cDefault,crc64Be,List.foldl_nil,UInt64.toUInt32_ofNat,UInt32.toUInt64_ofNat]

theorem rechecksumMerged_foldlM {type : Nat} (mergeable : bch2ChecksumMergeable type = true) (nonce : ν) :
    ∀ (pieces : List (List UInt8)) (done : List UInt8), (∀ piece ∈ pieces, piece.length < 2^32) →
      (pieces.map fun piece => (bch2Checksum h type nonce piece,piece.length)).foldlM
          (fun merged split => bch2ChecksumMerge h type merged split.1 split.2) (bch2Checksum h type nonce done) =
        some (bch2Checksum h type nonce (done ++ pieces.flatten))
  | [],done,_ => by
    rw [List.map_nil,List.foldlM_nil,List.flatten_nil,List.append_nil]
    rfl
  | piece :: pieces,done,fits => by
    rw [List.map_cons,List.foldlM_cons,
      bch2ChecksumMerge_checksum h mergeable nonce nonce nonce done piece (fits piece List.mem_cons_self),
      List.flatten_cons,← List.append_assoc]
    exact rechecksumMerged_foldlM mergeable nonce pieces (done ++ piece) (fun other later => fits other (List.mem_cons_of_mem _ later))

theorem bch2ChecksumMerge_of_wraps (type : Nat) (a b : BchCsum) (bLen : Nat) (wraps : 2^32 ≤ bLen) :
    bch2ChecksumMerge h type a b bLen = none := by
  unfold bch2ChecksumMerge
  split_ifs
  · rw [run_mergeStep_never_stops h _ _ _ wraps]
  · rfl
  · rfl

theorem checksum_merge_gives_checksum_of_concatenation :
    (h.Streams → ∀ type (nonce : ν) segments,
      bch2ChecksumBio h type nonce segments = bch2Checksum h type nonce segments.flatten) ∧
    (∀ type, bch2ChecksumMergeable type = true → ∀ (nA nB nAB : ν) (A B : List UInt8), B.length < 2^32 →
      bch2ChecksumMerge h type (bch2Checksum h type nA A) (bch2Checksum h type nB B) B.length =
        some (bch2Checksum h type nAB (A ++ B))) ∧
    (∀ type, bch2ChecksumMergeable type = true → ∀ (nonce : ν) (pieces : List (List UInt8)),
      (∀ piece ∈ pieces, piece.length < 2^32) →
      rechecksumMerged h type (pieces.map fun piece => (bch2Checksum h type nonce piece,piece.length)) =
        some (bch2Checksum h type nonce pieces.flatten)) := by
  refine ⟨bch2ChecksumBio_eq h,fun _ mergeable => bch2ChecksumMerge_checksum h mergeable,?_⟩
  intro type mergeable nonce pieces fits
  have folded := rechecksumMerged_foldlM h mergeable nonce pieces [] fits
  rw [bch2Checksum_nil_of_mergeable h mergeable,List.nil_append] at folded
  exact folded

theorem checksum_merge_never_returns_from_4gib :
    ∀ type (a b : BchCsum) bLen, 2^32 ≤ bLen →
      bch2ChecksumMerge h type a b bLen = none ∧
        ∀ fuel (state : Bch2ChecksumState σ), run (bch2ChecksumMergeStep h) fuel (state,bLen) = none :=
  fun type a b _ wraps => ⟨bch2ChecksumMerge_of_wraps h type a b _ wraps,fun fuel state => run_mergeStep_never_stops h fuel state _ wraps⟩

end Laws

-- Hashes that keep the bytes they take in and digest them to 0: they stream.
def keptBytesHashes : ChecksumHashes Unit (List UInt8) (List UInt8) :=
  ⟨[],fun s data => s ++ data,fun _ => 0,fun _ => [],fun s data => s ++ data,fun _ => ⟨0,0⟩⟩

theorem keptBytesHashes_streams : keptBytesHashes.Streams :=
  ⟨List.append_nil,List.append_assoc,List.append_nil,List.append_assoc⟩

theorem checksum_merge_crc32c_of_two_strings :
    keptBytesHashes.Streams ∧
      bch2ChecksumBio keptBytesHashes BCH_CSUM_xxhash () [[1,2],[3]] =
        bch2Checksum keptBytesHashes BCH_CSUM_xxhash () [[1,2],[3]].flatten ∧
    bch2ChecksumMergeable BCH_CSUM_crc32c = true ∧ [3].length < 2^32 ∧
      bch2ChecksumMerge keptBytesHashes BCH_CSUM_crc32c (bch2Checksum keptBytesHashes BCH_CSUM_crc32c () [1,2])
          (bch2Checksum keptBytesHashes BCH_CSUM_crc32c () [3]) [3].length =
        some (bch2Checksum keptBytesHashes BCH_CSUM_crc32c () ([1,2] ++ [3])) := by
  obtain ⟨bio,merge,-⟩ := checksum_merge_gives_checksum_of_concatenation keptBytesHashes
  exact ⟨keptBytesHashes_streams,bio keptBytesHashes_streams _ () _,rfl,by decide,
    merge _ rfl () () () [1,2] [3] (by decide)⟩

theorem checksum_merge_of_4gib_zero_csums :
    2^32 ≤ 2^32 ∧ bch2ChecksumMerge keptBytesHashes BCH_CSUM_crc64 ⟨0,0⟩ ⟨0,0⟩ (2^32) = none :=
  ⟨le_refl _,(checksum_merge_never_returns_from_4gib keptBytesHashes BCH_CSUM_crc64 ⟨0,0⟩ ⟨0,0⟩ (2^32) (le_refl _)).1⟩

end Bcachefs
