import Bcachefs.Lib.Runs
import Bcachefs.Lib.HeapSort
import Bcachefs.Extents.Entry
import Bcachefs.Lib.Bytes
import Bcachefs.Super.Fields

namespace Bcachefs

-- struct bch_sb_field_journal_v2_entry: the buckets start, start + 1, ..., nr of them.
structure BchSbFieldJournalV2Entry where
  start : UInt64
  nr : UInt64
  deriving DecidableEq, Repr

-- The journal fields of a member's superblock: the bucket list of BCH_SB_FIELD_journal
-- and the entries of BCH_SB_FIELD_journal_v2, each absent or there.
structure JournalSbFields where
  journal : Option (List UInt64)
  journalV2 : Option (List BchSbFieldJournalV2Entry)
  deriving DecidableEq, Repr

-- The two fields of struct bch_member the validators read.
structure BchMemberBuckets where
  firstBucket : UInt16
  nbuckets : UInt64
  deriving DecidableEq, Repr

-- What the validators print before they return -BCH_ERR_invalid_sb_journal.
inductive JournalSbInvalid where
  | badNr (start nr : UInt64)
  | sector0
  | beforeFirst (b : UInt64) (firstBucket : UInt16)
  | pastEnd (b nbuckets : UInt64)
  | duplicate (b : UInt64)
  | duplicateRanges (start stop start' stop' : UInt64)
  | tooMany (sum : UInt64)
  deriving DecidableEq, Repr

def JournalSbInvalid.toText : JournalSbInvalid → String
  | .badNr start nr => "journal buckets entry with bad nr: " ++ toString start ++ "+" ++ toString nr
  | .sector0 => "journal bucket at sector 0"
  | .beforeFirst b first => "journal bucket " ++ toString b ++ " before first bucket " ++ toString first
  | .pastEnd b nbuckets => "journal bucket " ++ toString b ++ " past end of device (nbuckets " ++ toString nbuckets ++ ")"
  | .duplicate b => "duplicate journal buckets " ++ toString b
  | .duplicateRanges start stop start' stop' =>
    "duplicate journal buckets in ranges " ++ toString start ++ "-" ++ toString stop ++ ", " ++ toString start' ++ "-" ++
      toString stop'
  | .tooMany sum => "too many journal buckets: " ++ toString sum ++ " > " ++ toString UINT_MAX

-- The array a validator sorts with lib/sort.c's sort and a cmp_int comparison of
-- rank, read as a function of the index.
def sortedArray {α : Type} (rank : α → Nat) (default : α) (xs : List α) : Nat → α :=
  HeapSort.sort (HeapSort.geOf rank) (fun i => xs.getD i default) xs.length

-- bch2_sb_journal_validate: the buckets sorted by u64_cmp, then the first, the last
-- and each pair of neighbours checked.
def bch2SbJournalValidate (m : BchMemberBuckets) (buckets : List UInt64) : Except JournalSbInvalid Unit :=
  let nr := buckets.length
  if nr = 0 then .ok ()
  else
    let b := sortedArray UInt64.toNat 0 buckets
    if b 0 = 0 then .error .sector0
    else if b 0 < m.firstBucket.toUInt64 then .error (.beforeFirst (b 0) m.firstBucket)
    else if b (nr - 1) ≥ m.nbuckets then .error (.pastEnd (b (nr - 1)) m.nbuckets)
    else match (List.range (nr - 1)).find? (fun i => b i == b (i + 1)) with
      | some i => .error (.duplicate (b i))
      | none => .ok ()

-- struct u64_range: the buckets from start up to stop, the source's end.
structure U64Range where
  start : UInt64
  stop : UInt64
  deriving DecidableEq, Repr

def journalV2Range (e : BchSbFieldJournalV2Entry) : U64Range := ⟨e.start,e.start + e.nr⟩

-- The ranges sorted by u64_range_cmp.
def journalV2Sorted (d : List BchSbFieldJournalV2Entry) : Nat → U64Range :=
  sortedArray (fun r : U64Range => r.start.toNat) ⟨0,0⟩ (d.map journalV2Range)

-- bch2_sb_journal_v2_validate: every entry's range must not wrap; then the ranges,
-- sorted by u64_range_cmp, are checked like the buckets of the old field, neighbours
-- must not overlap, and the entries' nr add up to at most UINT_MAX.
def bch2SbJournalV2Validate (m : BchMemberBuckets) (d : List BchSbFieldJournalV2Entry) : Except JournalSbInvalid Unit :=
  let nr := d.length
  if nr = 0 then .ok ()
  else match d.find? (fun e => e.start + e.nr ≤ e.start) with
    | some e => .error (.badNr e.start e.nr)
    | none =>
      let sum := (d.map (·.nr)).foldl (· + ·) 0
      let b := journalV2Sorted d
      if (b 0).start = 0 then .error .sector0
      else if (b 0).start < m.firstBucket.toUInt64 then .error (.beforeFirst (b 0).start m.firstBucket)
      else if (b (nr - 1)).stop > m.nbuckets then .error (.pastEnd ((b (nr - 1)).stop - 1) m.nbuckets)
      else match (List.range (nr - 1)).find? (fun i => (b i).stop > (b (i + 1)).start) with
        | some i => .error (.duplicateRanges (b i).start (b i).stop (b (i + 1)).start (b (i + 1)).stop)
        | none => if sum.toNat > UINT_MAX then .error (.tooMany sum) else .ok ()

-- The second loop of bch2_journal_buckets_to_sb: j->d[dst] is the entry in progress
-- and prev the bucket before; a bucket one past prev adds to its nr, any other opens
-- the next entry.
def journalBucketsCompact (cur : BchSbFieldJournalV2Entry) (prev : UInt64) : List UInt64 → List BchSbFieldJournalV2Entry
  | [] => [cur]
  | b :: rest =>
    if b = prev + 1 then journalBucketsCompact ⟨cur.start,cur.nr + 1⟩ b rest
    else cur :: journalBucketsCompact ⟨b,1⟩ b rest

-- The first loop: the number of entries, one and one more at each bucket that does not
-- follow the one before it.
def journalBucketsNrCompacted (buckets : List UInt64) : Nat :=
  1 + ((buckets.zip buckets.tail).filter fun (b,b') => b + 1 != b').length

-- bch2_journal_buckets_to_sb(c, ca, buckets, nr): no buckets deletes both fields;
-- otherwise journal_v2 is resized to hold nr_compacted entries, the old field deleted
-- and the entries written. `room u64s` says whether bch2_sb_field_resize finds room for
-- a field of u64s words; none is -BCH_ERR_ENOSPC_sb_journal, the fields left as they
-- were, or the BUG_ON(dst + 1 != nr_compacted) after the loop.
def bch2JournalBucketsToSb (room : Nat → Bool) (buckets : List UInt64) : Option JournalSbFields :=
  match buckets with
  | [] => some ⟨none,none⟩
  | b :: rest =>
    if room (1 + 2 * journalBucketsNrCompacted buckets) then
      if (journalBucketsCompact ⟨b,1⟩ b rest).length = journalBucketsNrCompacted buckets then
        some ⟨none,some (journalBucketsCompact ⟨b,1⟩ b rest)⟩
      else none
    else none

def BCH_SB_FIELD_journal_v2 : UInt32 := 9

-- room as bch2_sb_field_resize(&ca->disk_sb, journal_v2, u64s) decides it: whether
-- it returns a field.
def journalV2Room (sb : BchSbHandle) (u64s : Nat) : Bool :=
  ((bch2SbFieldResizeId sb BCH_SB_FIELD_journal_v2 u64s.toUInt32).bind (·.2)).isSome

-- ja->nr and ja->buckets.
structure JournalDevice where
  nr : UInt32
  buckets : List UInt64
  deriving DecidableEq, Repr

-- The buckets bch2_dev_journal_init writes for one entry. j is an unsigned: where nr
-- reaches 2^32 it wraps first, and the loop never ends.
def journalV2EntryBuckets (e : BchSbFieldJournalV2Entry) : Option (List UInt64) :=
  if e.nr.toNat < 2^32 then some ((List.range e.nr.toNat).map fun j => e.start + j.toUInt64) else none

-- bch2_dev_journal_init: ja->nr, an unsigned, adds up the entries' nr, and the loop
-- writes each entry's buckets at ja->buckets[dst++]; the buckets are those written,
-- which fit the nr slots allocated when the sum did not wrap. Allocations succeed.
def bch2DevJournalInit (fields : JournalSbFields) : Option JournalDevice :=
  match fields.journalV2,fields.journal with
  | some d,_ => do
    let written ← d.mapM journalV2EntryBuckets
    pure ⟨(d.map fun e => e.nr.toUInt32).foldl (· + ·) 0,written.flatten⟩
  | none,some buckets => some ⟨buckets.length.toUInt32,buckets⟩
  | none,none => some ⟨0,[]⟩

theorem iterate_add_one (x : UInt64) : ∀ j : Nat, (fun b : UInt64 => b + 1)^[j] x = x + j.toUInt64
  | 0 => by simp
  | j+1 => by
    rw [Function.iterate_succ_apply',iterate_add_one x j]
    simp only [Nat.toUInt64_eq,UInt64.add_assoc,UInt64.ofNat_add,UInt64.ofNat_one]

theorem journalBucketsCompact_eq :
    ∀ (bs : List UInt64) (start prev : UInt64) (n : Nat), n + bs.length < 2^64 →
      journalBucketsCompact ⟨start,n.toUInt64⟩ prev bs =
        (Runs.compact (· + 1) start n prev bs).map fun r => ⟨r.1,r.2.toUInt64⟩
  | [],_,_,_,_ => rfl
  | b :: rest,start,prev,n,fits => by
    rw [List.length_cons] at fits
    unfold journalBucketsCompact Runs.compact
    split
    · have bumped : n.toUInt64 + 1 = (n + 1).toUInt64 := by
        simp only [Nat.toUInt64_eq,UInt64.ofNat_add,UInt64.ofNat_one]
      rw [bumped,journalBucketsCompact_eq rest start b (n+1) (by omega)]
    · have later := journalBucketsCompact_eq rest b b 1 (by omega)
      rw [show Nat.toUInt64 1 = 1 from rfl] at later
      rw [List.map_cons,later]

theorem journalV2EntryBuckets_eq_expand {e : BchSbFieldJournalV2Entry} (small : e.nr.toNat < 2^32) :
    journalV2EntryBuckets e = some (Runs.expand (· + 1) e.start e.nr.toNat) := by
  rw [journalV2EntryBuckets,if_pos small,Runs.expand]
  simp only [iterate_add_one]

theorem journalV2EntryBuckets_run (start : UInt64) {n : Nat} (small : n < 2^32) :
    journalV2EntryBuckets ⟨start,n.toUInt64⟩ = some (Runs.expand (· + 1) start n) := by
  have exact : n.toUInt64.toNat = n := by
    simp only [Nat.toUInt64_eq,UInt64.toNat_ofNat']
    omega
  simpa only [exact] using journalV2EntryBuckets_eq_expand (e := ⟨start,n.toUInt64⟩) (by simpa only [exact] using small)

theorem mapM_journalV2EntryBuckets :
    ∀ runs : List (UInt64 × Nat), (∀ r ∈ runs, r.2 < 2^32) →
      (runs.map fun r => (⟨r.1,r.2.toUInt64⟩ : BchSbFieldJournalV2Entry)).mapM journalV2EntryBuckets =
        some (runs.map fun r => Runs.expand (· + 1) r.1 r.2)
  | [],_ => rfl
  | r :: runs,small => by
    rw [List.map_cons,List.mapM_cons,journalV2EntryBuckets_run r.1 (small r List.mem_cons_self),
      mapM_journalV2EntryBuckets runs (fun r' later => small r' (List.mem_cons_of_mem _ later))]
    rfl

theorem foldl_add_toUInt32 : ∀ (xs : List Nat) (acc : UInt32),
    (xs.map Nat.toUInt32).foldl (· + ·) acc = acc + xs.sum.toUInt32
  | [],acc => by simp
  | x :: xs,acc => by
    rw [List.map_cons,List.foldl_cons,foldl_add_toUInt32 xs,List.sum_cons]
    simp only [Nat.toUInt32_eq,UInt32.ofNat_add,UInt32.add_assoc]

-- The BUG_ON of bch2_journal_buckets_to_sb never fires: its second loop writes as many
-- entries as its first counts.
theorem length_journalBucketsCompact : ∀ (rest : List UInt64) (cur : BchSbFieldJournalV2Entry) (prev : UInt64),
    (journalBucketsCompact cur prev rest).length =
      1 + (((prev :: rest).zip rest).filter fun (b,b') => b + 1 != b').length
  | [],_,_ => rfl
  | b :: rest,cur,prev => by
    rw [List.zip_cons_cons]
    unfold journalBucketsCompact
    split
    · rename_i follows
      subst follows
      rw [length_journalBucketsCompact rest,List.filter_cons]
      simp only [bne_self_eq_false,Bool.false_eq_true,↓reduceIte]
    · rename_i jumps
      have kept : (prev + 1 != b) = true := bne_iff_ne.mpr fun same => jumps same.symm
      rw [List.length_cons,length_journalBucketsCompact rest,List.filter_cons]
      simp only [kept,↓reduceIte,List.length_cons]
      omega

theorem journalBucketsCompact_length_eq (b : UInt64) (rest : List UInt64) :
    (journalBucketsCompact ⟨b,1⟩ b rest).length = journalBucketsNrCompacted (b :: rest) := by
  rw [length_journalBucketsCompact,journalBucketsNrCompacted,List.tail_cons]

-- bch2_journal_buckets_to_sb fails only where the superblock has no room.
theorem bch2JournalBucketsToSb_isSome (room : Nat → Bool) (buckets : List UInt64) :
    (bch2JournalBucketsToSb room buckets).isSome = (buckets.isEmpty || room (1 + 2 * journalBucketsNrCompacted buckets)) := by
  cases buckets with
  | nil => rfl
  | cons b rest =>
    simp only [bch2JournalBucketsToSb]
    rw [if_pos (journalBucketsCompact_length_eq b rest)]
    cases room (1 + 2 * journalBucketsNrCompacted (b :: rest)) <;> rfl

theorem bch2JournalBucketsToSb_journalV2Room {sb : BchSbHandle} {before after : List SbField} {r : SbField}
    (fields : sb.HasFields (before ++ r :: after)) (first : BCH_SB_FIELD_journal_v2 ∉ before.map SbField.type)
    (is : r.type = BCH_SB_FIELD_journal_v2) (room : sb.HasRoom sb.u64s) (buckets : List UInt64)
    (le : 1 + 2 * journalBucketsNrCompacted buckets ≤ r.u64s) :
    (bch2JournalBucketsToSb (journalV2Room sb) buckets).isSome := by
  obtain ⟨sb',resized⟩ := bch2SbFieldResizeId_shrink_words fields first is (by omega) le room
  rw [bch2JournalBucketsToSb_isSome,journalV2Room,resized]
  simp

-- bch2_dev_journal_init reads back what bch2_journal_buckets_to_sb wrote: the same
-- buckets in the same order, and as many in ja->nr.
theorem bch2DevJournalInit_toSb {room : Nat → Bool} {buckets : List UInt64} {fields : JournalSbFields}
    (fits : buckets.length < 2^32) (written : bch2JournalBucketsToSb room buckets = some fields) :
    bch2DevJournalInit fields = some ⟨buckets.length.toUInt32,buckets⟩ := by
  unfold bch2JournalBucketsToSb at written
  split at written
  · rw [← Option.some.inj written]
    rfl
  · rename_i b rest
    split at written
    · rw [if_pos (journalBucketsCompact_length_eq b rest)] at written
      rw [← Option.some.inj written]
      rw [List.length_cons] at fits
      have runs := journalBucketsCompact_eq rest b b 1 (by omega)
      have counts := Runs.compact_counts (· + 1) rest b b 1 (by omega)
      have expanded := Runs.flatMap_expand_compact (· + 1) rest b b 1 (by omega) rfl
      rw [Runs.expand_one,List.singleton_append] at expanded
      rw [show Nat.toUInt64 1 = 1 from rfl] at runs
      have total : ((Runs.compact (· + 1) b 1 b rest).map (·.2)).sum = rest.length + 1 := by
        have sizes := congrArg List.length expanded
        rw [List.length_flatMap,List.length_cons] at sizes
        simpa only [Runs.length_expand] using sizes
      have small : ∀ r ∈ Runs.compact (· + 1) b 1 b rest, r.2 < 2^32 := by
        intro r member
        have := counts r member
        omega
      simp only [bch2DevJournalInit]
      rw [runs,mapM_journalV2EntryBuckets _ small]
      show some (⟨_,_⟩ : JournalDevice) = _
      rw [List.map_map,List.length_cons]
      have narrowed : ((fun e : BchSbFieldJournalV2Entry => e.nr.toUInt32) ∘ fun r : UInt64 × Nat => ⟨r.1,r.2.toUInt64⟩) =
          Nat.toUInt32 ∘ (·.2) := by
        funext r
        simp only [Function.comp_apply,Nat.toUInt64_eq,UInt64.toUInt32_ofNat',Nat.toUInt32_eq]
      rw [narrowed,← List.map_map,foldl_add_toUInt32,total,UInt32.zero_add]
      exact congrArg (some ∘ JournalDevice.mk _) expanded
    · cases written

theorem journal_buckets_read_back_after_write :
    [5,6,8].length < 2^32 ∧ bch2JournalBucketsToSb (fun _ => true) [5,6,8] = some ⟨none,some [⟨5,2⟩,⟨8,1⟩]⟩ ∧
      bch2DevJournalInit ⟨none,some [⟨5,2⟩,⟨8,1⟩]⟩ = some ⟨[5,6,8].length.toUInt32,[5,6,8]⟩ :=
  ⟨by decide,rfl,@bch2DevJournalInit_toSb (fun _ => true) [5,6,8] ⟨none,some [⟨5,2⟩,⟨8,1⟩]⟩ (by decide) rfl⟩

theorem find?_neighbours_eq_none {α : Type} {p : α → α → Bool} {f : Nat → α} {n : Nat} :
    (List.range (n - 1)).find? (fun i => p (f i) (f (i + 1))) = none ↔ ∀ i, i + 1 < n → p (f i) (f (i + 1)) = false := by
  rw [List.find?_eq_none]
  constructor
  · intro none i next
    simpa using none i (List.mem_range.mpr (by omega))
  · intro apart i member
    rw [List.mem_range] at member
    simpa using apart i (by omega)

theorem sortedArray_spec {α : Type} (rank : α → Nat) (default : α) (xs : List α) :
    Runs.SortedBelow (fun i => rank (sortedArray rank default xs i)) xs.length ∧
      ((List.range xs.length).map (sortedArray rank default xs)).Perm xs := by
  obtain ⟨sorted,σ,fixes,shape⟩ := @HeapSort.sort_spec α Nat _ rank (fun i => xs.getD i default) xs.length
  refine ⟨sorted,?_⟩
  rw [sortedArray,shape,← List.map_map]
  have whole : (List.range xs.length).map (fun i => xs.getD i default) = xs := Bytes.map_getD_range xs default
  exact ((HeapSort.range_map_perm fixes).map _).trans (by rw [whole])

section SortedBuckets

variable {buckets : List UInt64} {b : Nat → UInt64} (sorted : Runs.SortedBelow (fun i => (b i).toNat) buckets.length)
  (perm : ((List.range buckets.length).map b).Perm buckets)
include sorted perm

omit sorted in
theorem sortedBuckets_mem {i : Nat} (inside : i < buckets.length) : b i ∈ buckets :=
  perm.mem_iff.mp (List.mem_map_of_mem (List.mem_range.mpr inside))

theorem sortedBuckets_bounds {x : UInt64} (member : x ∈ buckets) :
    b 0 ≤ x ∧ x ≤ b (buckets.length - 1) := by
  obtain ⟨i,inside,rfl⟩ := List.mem_map.mp (perm.mem_iff.mpr member)
  have within := sorted.bounds (List.mem_map_of_mem inside)
  exact ⟨UInt64.le_iff_toNat_le.mpr within.1,UInt64.le_iff_toNat_le.mpr within.2⟩

theorem sortedBuckets_nodup_iff : buckets.Nodup ↔ ∀ i, i + 1 < buckets.length → b i ≠ b (i + 1) := by
  have injective : Function.Injective UInt64.toNat := fun _ _ same => UInt64.toNat_inj.mp same
  rw [← perm.nodup_iff,← List.nodup_map_iff injective,List.map_map]
  rw [show UInt64.toNat ∘ b = fun i => (b i).toNat from rfl,sorted.nodup_iff]
  exact forall_congr' fun i => imp_congr_right fun _ => not_congr UInt64.toNat_inj

end SortedBuckets

-- The old journal field passes bch2_sb_journal_validate just when its buckets are
-- distinct, none is bucket 0, and all lie in [first_bucket, nbuckets).
theorem bch2SbJournalValidate_ok_iff (m : BchMemberBuckets) (buckets : List UInt64) :
    bch2SbJournalValidate m buckets = .ok () ↔
      buckets.Nodup ∧ ∀ b ∈ buckets, b ≠ 0 ∧ m.firstBucket.toUInt64 ≤ b ∧ b < m.nbuckets := by
  unfold bch2SbJournalValidate
  dsimp only
  by_cases empty : buckets.length = 0
  · rw [if_pos empty]
    rw [List.length_eq_zero_iff] at empty
    subst empty
    simp
  rw [if_neg empty]
  obtain ⟨sorted,perm⟩ := sortedArray_spec UInt64.toNat 0 buckets
  generalize sortedArray UInt64.toNat 0 buckets = b at sorted perm ⊢
  have first := sortedBuckets_mem perm (i := 0) (by omega)
  have last := sortedBuckets_mem perm (i := buckets.length - 1) (by omega)
  split_ifs with zero below past
  · simp only [false_iff,not_and]
    exact fun _ inside => (inside (b 0) first).1 zero
  · simp only [false_iff,not_and]
    intro _ inside
    have bounded := UInt64.le_iff_toNat_le.mp (inside (b 0) first).2.1
    rw [UInt64.lt_iff_toNat_lt] at below
    omega
  · simp only [false_iff,not_and]
    intro _ inside
    have bounded := UInt64.lt_iff_toNat_lt.mp (inside _ last).2.2
    rw [ge_iff_le,UInt64.le_iff_toNat_le] at past
    omega
  · cases found : (List.range (buckets.length - 1)).find? (fun i => b i == b (i + 1)) with
    | some i =>
      have equal := List.find?_some found
      have next := List.mem_range.mp (List.mem_of_find?_eq_some found)
      simp only [reduceCtorEq,false_iff,not_and]
      intro distinct
      exact absurd (beq_iff_eq.mp equal) ((sortedBuckets_nodup_iff sorted perm).mp distinct i (by omega))
    | none =>
      have apart := find?_neighbours_eq_none.mp found
      simp only [true_iff]
      refine ⟨(sortedBuckets_nodup_iff sorted perm).mpr fun i next => by simpa using apart i next,?_⟩
      intro x member
      have within := sortedBuckets_bounds sorted perm member
      rw [UInt64.le_iff_toNat_le,UInt64.le_iff_toNat_le] at within
      rw [UInt64.lt_iff_toNat_lt] at below
      rw [ge_iff_le,UInt64.le_iff_toNat_le] at past
      have positive : (b 0).toNat ≠ 0 := fun isZero => zero (UInt64.toNat_inj.mp isZero)
      refine ⟨fun isZero => ?_,UInt64.le_iff_toNat_le.mpr (by omega),UInt64.lt_iff_toNat_lt.mpr (by omega)⟩
      rw [isZero,UInt64.toNat_zero] at within
      omega

-- What bch2_sb_journal_v2_validate checks of a field with entries: no range wraps, the
-- sorted ranges start past sector 0 and first_bucket, end by nbuckets and stop before
-- the next starts, and the entries' nr add up to at most UINT_MAX.
structure JournalV2Valid (m : BchMemberBuckets) (d : List BchSbFieldJournalV2Entry) : Prop where
  noWrap : ∀ e ∈ d, ¬(e.start + e.nr ≤ e.start)
  pastZero : (journalV2Sorted d 0).start ≠ 0
  pastFirst : m.firstBucket.toUInt64 ≤ (journalV2Sorted d 0).start
  byNbuckets : (journalV2Sorted d (d.length - 1)).stop ≤ m.nbuckets
  apart : ∀ i, i + 1 < d.length → (journalV2Sorted d i).stop ≤ (journalV2Sorted d (i + 1)).start
  fewEnough : ((d.map fun e : BchSbFieldJournalV2Entry => e.nr).foldl (· + ·) 0).toNat ≤ UINT_MAX

theorem bch2SbJournalV2Validate_eq_ok {m : BchMemberBuckets} {d : List BchSbFieldJournalV2Entry} (nonempty : d ≠ []) :
    bch2SbJournalV2Validate m d = .ok () ↔ JournalV2Valid m d := by
  unfold bch2SbJournalV2Validate
  dsimp only
  rw [if_neg (by simpa using nonempty)]
  cases wraps : d.find? (fun e => e.start + e.nr ≤ e.start) with
  | some e =>
    simp only [reduceCtorEq,false_iff]
    intro valid
    exact valid.noWrap e (List.mem_of_find?_eq_some wraps) (by simpa using List.find?_some wraps)
  | none =>
    have noWrap : ∀ e ∈ d, ¬(e.start + e.nr ≤ e.start) := by simpa using List.find?_eq_none.mp wraps
    dsimp only
    split
    next zero =>
      simp only [reduceCtorEq,false_iff]
      exact fun valid => valid.pastZero zero
    rename_i zero
    split
    next below =>
      simp only [reduceCtorEq,false_iff]
      intro valid
      have := UInt64.le_iff_toNat_le.mp valid.pastFirst
      have := UInt64.lt_iff_toNat_lt.mp below
      omega
    rename_i below
    split
    next past =>
      simp only [reduceCtorEq,false_iff]
      intro valid
      have := UInt64.le_iff_toNat_le.mp valid.byNbuckets
      have := UInt64.lt_iff_toNat_lt.mp past
      omega
    rename_i past
    have pastFirst : m.firstBucket.toUInt64 ≤ (journalV2Sorted d 0).start := by
      rw [UInt64.lt_iff_toNat_lt] at below
      rw [UInt64.le_iff_toNat_le]
      omega
    have byNbuckets : (journalV2Sorted d (d.length - 1)).stop ≤ m.nbuckets := by
      rw [gt_iff_lt,UInt64.lt_iff_toNat_lt] at past
      rw [UInt64.le_iff_toNat_le]
      omega
    cases overlap : (List.range (d.length - 1)).find? (fun i => (journalV2Sorted d i).stop > (journalV2Sorted d (i + 1)).start) with
    | some i =>
      simp only [reduceCtorEq,false_iff]
      intro valid
      have inside := List.mem_range.mp (List.mem_of_find?_eq_some overlap)
      have crossing := List.find?_some overlap
      have stops := UInt64.le_iff_toNat_le.mp (valid.apart i (by omega))
      simp only [decide_eq_true_eq,gt_iff_lt,UInt64.lt_iff_toNat_lt] at crossing
      omega
    | none =>
      have apart : ∀ i, i + 1 < d.length → (journalV2Sorted d i).stop ≤ (journalV2Sorted d (i + 1)).start := by
        intro i inside
        have kept := (find?_neighbours_eq_none (p := fun a b : U64Range => decide (a.stop > b.start)) (f := journalV2Sorted d)).mp
          overlap i inside
        simp only [decide_eq_false_iff_not,gt_iff_lt,UInt64.lt_iff_toNat_lt] at kept
        rw [UInt64.le_iff_toNat_le]
        omega
      dsimp only
      split
      next many =>
        simp only [reduceCtorEq,false_iff]
        exact fun valid => absurd valid.fewEnough (by omega)
      next few =>
        simp only [true_iff]
        exact ⟨noWrap,zero,pastFirst,byNbuckets,apart,by omega⟩

-- The buckets the entries of a journal_v2 field stand for, as numbers.
def journalV2Covered (d : List BchSbFieldJournalV2Entry) : List Nat :=
  d.flatMap fun e => List.range' e.start.toNat e.nr.toNat

theorem length_journalV2Covered (d : List BchSbFieldJournalV2Entry) :
    (journalV2Covered d).length = (d.map fun e => e.nr.toNat).sum := by
  simp only [journalV2Covered,List.length_flatMap,List.length_range']

theorem foldl_add_toNat : ∀ (xs : List UInt64) (acc : UInt64),
    (xs.foldl (· + ·) acc).toNat = (acc.toNat + (xs.map UInt64.toNat).sum) % 2^64
  | [],acc => by simp [Nat.mod_eq_of_lt acc.toNat_lt]
  | x :: xs,acc => by
    rw [List.foldl_cons,foldl_add_toNat xs,UInt64.toNat_add,List.map_cons,List.sum_cons]
    omega

theorem journalV2Sum_toNat (d : List BchSbFieldJournalV2Entry) :
    ((d.map fun e : BchSbFieldJournalV2Entry => e.nr).foldl (· + ·) 0).toNat = (journalV2Covered d).length % 2^64 := by
  rw [foldl_add_toNat,length_journalV2Covered,List.map_map]
  simp only [UInt64.toNat_zero,Nat.zero_add]
  rfl

theorem journalV2Entry_noWrap_iff (e : BchSbFieldJournalV2Entry) :
    ¬(e.start + e.nr ≤ e.start) ↔ 0 < e.nr.toNat ∧ e.start.toNat + e.nr.toNat < 2^64 := by
  rw [UInt64.le_iff_toNat_le,UInt64.toNat_add]
  have := e.start.toNat_lt
  have := e.nr.toNat_lt
  omega

theorem journalV2Sorted_mem {d : List BchSbFieldJournalV2Entry} {i : Nat} (inside : i < d.length) :
    ∃ e ∈ d, journalV2Sorted d i = journalV2Range e := by
  obtain ⟨_,perm⟩ := sortedArray_spec (fun r : U64Range => r.start.toNat) ⟨0,0⟩ (d.map journalV2Range)
  have member : journalV2Sorted d i ∈ d.map journalV2Range :=
    perm.subset (List.mem_map.mpr ⟨i,List.mem_range.mpr (by simpa using inside),rfl⟩)
  obtain ⟨e,inD,same⟩ := List.mem_map.mp member
  exact ⟨e,inD,same.symm⟩

theorem journalV2Sorted_spec {d : List BchSbFieldJournalV2Entry} (noWrap : ∀ e ∈ d, ¬(e.start + e.nr ≤ e.start)) :
    Runs.SortedBelow (fun i => (journalV2Sorted d i).start.toNat) d.length ∧
      (∀ i < d.length, (journalV2Sorted d i).start.toNat < (journalV2Sorted d i).stop.toNat) ∧
      (Runs.intervals (fun i => (journalV2Sorted d i).start.toNat) (fun i => (journalV2Sorted d i).stop.toNat)
        d.length).Perm (journalV2Covered d) := by
  obtain ⟨sorted,perm⟩ := sortedArray_spec (fun r : U64Range => r.start.toNat) ⟨0,0⟩ (d.map journalV2Range)
  rw [List.length_map] at sorted perm
  refine ⟨sorted,?_,?_⟩
  · intro i inside
    obtain ⟨e,inD,same⟩ := journalV2Sorted_mem inside
    have := (journalV2Entry_noWrap_iff e).mp (noWrap e inD)
    rw [same]
    simp only [journalV2Range,UInt64.toNat_add]
    omega
  · have covered := perm.flatMap_right fun r : U64Range => List.range' r.start.toNat (r.stop.toNat - r.start.toNat)
    rw [List.flatMap_map,List.flatMap_map] at covered
    refine covered.trans (List.Perm.of_eq (List.flatMap_congr fun e inD => ?_))
    have := (journalV2Entry_noWrap_iff e).mp (noWrap e inD)
    simp only [journalV2Range,UInt64.toNat_add]
    congr 1
    omega

theorem bch2SbJournalV2Validate_ok_iff (m : BchMemberBuckets) (d : List BchSbFieldJournalV2Entry) :
    bch2SbJournalV2Validate m d = .ok () ↔
      (∀ e ∈ d, 0 < e.nr.toNat ∧ e.start.toNat + e.nr.toNat < 2^64) ∧ (journalV2Covered d).Nodup ∧
        (∀ x ∈ journalV2Covered d, x ≠ 0 ∧ m.firstBucket.toNat ≤ x ∧ x < m.nbuckets.toNat) ∧
        (journalV2Covered d).length ≤ UINT_MAX := by
  by_cases empty : d = []
  · subst empty
    simp [bch2SbJournalV2Validate,journalV2Covered,UINT_MAX]
  rw [bch2SbJournalV2Validate_eq_ok empty]
  have positive : 0 < d.length := List.length_pos_iff.mpr empty
  constructor
  · intro valid
    obtain ⟨sorted,filled,covers⟩ := journalV2Sorted_spec valid.noWrap
    have chain : Runs.Chained (fun i => (journalV2Sorted d i).start.toNat) (fun i => (journalV2Sorted d i).stop.toNat)
        d.length := fun i inside => UInt64.le_iff_toNat_le.mp (valid.apart i inside)
    have distinct := covers.nodup_iff.mp (chain.nodup filled)
    have inRange : ∀ x ∈ journalV2Covered d, x ≠ 0 ∧ m.firstBucket.toNat ≤ x ∧ x < m.nbuckets.toNat := by
      intro x member
      obtain ⟨i,inside,low,high⟩ := Runs.mem_intervals.mp (covers.mem_iff.mpr member)
      have fromFirst := sorted 0 i (Nat.zero_le _) inside
      have toLast := chain.stop_le_last filled i inside
      have pastZero : (journalV2Sorted d 0).start.toNat ≠ 0 := fun zero => valid.pastZero (UInt64.toNat_inj.mp zero)
      have pastFirst := UInt64.le_iff_toNat_le.mp valid.pastFirst
      have byNbuckets := UInt64.le_iff_toNat_le.mp valid.byNbuckets
      rw [UInt16.toNat_toUInt64] at pastFirst
      dsimp only at fromFirst toLast low high
      omega
    -- the covered buckets are distinct and below nbuckets, so their u64 sum cannot wrap
    have bounded : (journalV2Covered d).length < 2^64 := by
      have within := (distinct.subperm fun x member => List.mem_range.mpr (inRange x member).2.2).length_le
      rw [List.length_range] at within
      have := m.nbuckets.toNat_lt
      omega
    have few := valid.fewEnough
    rw [journalV2Sum_toNat,Nat.mod_eq_of_lt bounded] at few
    exact ⟨fun e inD => (journalV2Entry_noWrap_iff e).mp (valid.noWrap e inD),distinct,inRange,few⟩
  · rintro ⟨fits,distinct,inRange,few⟩
    have noWrap : ∀ e ∈ d, ¬(e.start + e.nr ≤ e.start) := fun e inD => (journalV2Entry_noWrap_iff e).mpr (fits e inD)
    obtain ⟨sorted,filled,covers⟩ := journalV2Sorted_spec noWrap
    have chain := Runs.chained_of_nodup (fun i follows => sorted i (i+1) (by omega) follows) filled
      (covers.nodup_iff.mpr distinct)
    have first := inRange _ (covers.mem_iff.mp (Runs.mem_intervals.mpr ⟨0,positive,le_refl _,filled 0 positive⟩))
    have lastFilled := filled (d.length - 1) (by omega)
    have last := inRange ((journalV2Sorted d (d.length - 1)).stop.toNat - 1)
      (covers.mem_iff.mp (Runs.mem_intervals.mpr ⟨d.length - 1,by omega,by omega,by omega⟩))
    refine ⟨noWrap,fun zero => first.1 (by rw [zero]; rfl),?_,?_,fun i inside => UInt64.le_iff_toNat_le.mpr (chain i inside),?_⟩
    · rw [UInt64.le_iff_toNat_le,UInt16.toNat_toUInt64]
      exact first.2.1
    · rw [UInt64.le_iff_toNat_le]
      omega
    · rw [journalV2Sum_toNat]
      exact le_trans (Nat.mod_le _ _) few

theorem bucket_inRange_toNat {m : BchMemberBuckets} {b : UInt64} :
    (b ≠ 0 ∧ m.firstBucket.toUInt64 ≤ b ∧ b < m.nbuckets) ↔
      (b.toNat ≠ 0 ∧ m.firstBucket.toNat ≤ b.toNat ∧ b.toNat < m.nbuckets.toNat) := by
  rw [UInt64.le_iff_toNat_le,UInt64.lt_iff_toNat_lt,UInt16.toNat_toUInt64,Ne,Ne,← UInt64.toNat_inj,UInt64.toNat_zero]

theorem expand_toNat {s : UInt64} {n : Nat} (fits : s.toNat + n < 2^64) :
    (Runs.expand (· + 1) s n).map UInt64.toNat = List.range' s.toNat n := by
  rw [Runs.expand,List.map_map,List.range'_eq_map_range]
  apply List.map_congr_left
  intro j member
  rw [List.mem_range] at member
  simp only [Function.comp_apply,iterate_add_one,UInt64.toNat_add,Nat.toUInt64_eq,UInt64.toNat_ofNat']
  omega

theorem expand_fits {s : UInt64} {n : Nat} (below : ∀ x ∈ Runs.expand (· + 1) s n, x.toNat < 2^64 - 1) :
    s.toNat + n < 2^64 := by
  have := s.toNat_lt
  by_contra wraps
  have top := below _ (List.mem_map.mpr ⟨2^64 - 1 - s.toNat,List.mem_range.mpr (by omega),rfl⟩)
  rw [iterate_add_one,UInt64.toNat_add,Nat.toUInt64_eq,UInt64.toNat_ofNat'] at top
  omega

theorem mapM_journalV2EntryBuckets_toNat :
    ∀ d : List BchSbFieldJournalV2Entry, (∀ e ∈ d, e.nr.toNat < 2^32 ∧ e.start.toNat + e.nr.toNat < 2^64) →
      ∃ ls, d.mapM journalV2EntryBuckets = some ls ∧ ls.flatten.map UInt64.toNat = journalV2Covered d
  | [],_ => ⟨[],rfl,rfl⟩
  | e :: d,fit => by
    obtain ⟨small,fits⟩ := fit e List.mem_cons_self
    obtain ⟨ls,read,numbers⟩ := mapM_journalV2EntryBuckets_toNat d fun e' later => fit e' (List.mem_cons_of_mem _ later)
    refine ⟨Runs.expand (· + 1) e.start e.nr.toNat :: ls,?_,?_⟩
    · rw [List.mapM_cons,journalV2EntryBuckets_eq_expand small,read]
      rfl
    · rw [List.flatten_cons,List.map_append,expand_toNat fits,numbers]
      rfl

-- What bch2_sb_journal_v2_validate accepts, bch2_dev_journal_init reads into distinct
-- buckets past sector 0 and first_bucket and before nbuckets, with ja->nr their number.
theorem bch2DevJournalInit_of_v2_valid {m : BchMemberBuckets} {journal : Option (List UInt64)}
    {d : List BchSbFieldJournalV2Entry} (valid : bch2SbJournalV2Validate m d = .ok ()) :
    ∃ ja, bch2DevJournalInit ⟨journal,some d⟩ = some ja ∧ ja.nr.toNat = ja.buckets.length ∧ ja.buckets.Nodup ∧
      ∀ b ∈ ja.buckets, b ≠ 0 ∧ m.firstBucket.toUInt64 ≤ b ∧ b < m.nbuckets := by
  obtain ⟨fits,distinct,inRange,few⟩ := (bch2SbJournalV2Validate_ok_iff m d).mp valid
  have small : ∀ e ∈ d, e.nr.toNat < 2^32 := by
    intro e inD
    have counted : e.nr.toNat ≤ (journalV2Covered d).length := by
      rw [length_journalV2Covered]
      exact List.le_sum_of_mem (List.mem_map_of_mem inD)
    unfold UINT_MAX at few
    omega
  obtain ⟨ls,read,numbers⟩ := mapM_journalV2EntryBuckets_toNat d fun e inD => ⟨small e inD,(fits e inD).2⟩
  -- ja->nr adds up u32 truncations, which lose nothing below UINT_MAX
  have count : ((d.map fun e : BchSbFieldJournalV2Entry => e.nr.toUInt32).foldl (· + ·) 0).toNat =
      (journalV2Covered d).length := by
    have narrowed : (d.map fun e : BchSbFieldJournalV2Entry => e.nr.toUInt32) =
        (d.map fun e : BchSbFieldJournalV2Entry => e.nr.toNat).map Nat.toUInt32 := by
      rw [List.map_map]
      apply List.map_congr_left
      intro e _
      apply UInt32.toNat_inj.mp
      simp
    rw [narrowed,foldl_add_toUInt32,UInt32.zero_add,← length_journalV2Covered]
    unfold UINT_MAX at few
    simp only [Nat.toUInt32_eq,UInt32.toNat_ofNat']
    omega
  refine ⟨⟨(d.map fun e => e.nr.toUInt32).foldl (· + ·) 0,ls.flatten⟩,?_,?_,
    List.Nodup.of_map UInt64.toNat (numbers ▸ distinct),?_⟩
  · simp only [bch2DevJournalInit,read]
    rfl
  · rw [count,← numbers,List.length_map]
  · intro b member
    exact bucket_inRange_toNat.mpr (inRange b.toNat (numbers ▸ List.mem_map_of_mem member))

theorem journal_v2_unsorted_ranges_read_back :
    bch2SbJournalV2Validate ⟨1,16⟩ [⟨8,1⟩,⟨5,2⟩] = .ok () ∧
      ∃ ja, bch2DevJournalInit ⟨none,some [⟨8,1⟩,⟨5,2⟩]⟩ = some ja ∧ ja.nr.toNat = ja.buckets.length ∧
        ja.buckets.Nodup ∧ ∀ b ∈ ja.buckets, b ≠ 0 ∧ (1 : UInt16).toUInt64 ≤ b ∧ b < 16 := by
  have valid : bch2SbJournalV2Validate ⟨1,16⟩ [⟨8,1⟩,⟨5,2⟩] = .ok () :=
    (bch2SbJournalV2Validate_ok_iff _ _).mpr (by decide)
  exact ⟨valid,bch2DevJournalInit_of_v2_valid valid⟩

theorem journalV2Covered_runs (runs : List (UInt64 × Nat)) (fits : ∀ r ∈ runs, r.1.toNat + r.2 < 2^64) :
    journalV2Covered (runs.map fun r => ⟨r.1,r.2.toUInt64⟩) =
      (runs.flatMap fun r => Runs.expand (· + 1) r.1 r.2).map UInt64.toNat := by
  rw [journalV2Covered,List.flatMap_map,List.map_flatMap]
  apply List.flatMap_congr
  intro r member
  have fit := fits r member
  have exact : r.2.toUInt64.toNat = r.2 := by
    simp only [Nat.toUInt64_eq,UInt64.toNat_ofNat']
    omega
  rw [expand_toNat fit,exact]

-- bch2_journal_buckets_to_sb writes a journal_v2 field that bch2_sb_journal_v2_validate
-- accepts, from distinct buckets past sector 0 and first_bucket and before nbuckets,
-- at most UINT_MAX of them.
theorem bch2SbJournalV2Validate_toSb {m : BchMemberBuckets} {room : Nat → Bool} {buckets : List UInt64}
    {fields : JournalSbFields} (distinct : buckets.Nodup)
    (inRange : ∀ b ∈ buckets, b ≠ 0 ∧ m.firstBucket.toUInt64 ≤ b ∧ b < m.nbuckets) (few : buckets.length ≤ UINT_MAX)
    (written : bch2JournalBucketsToSb room buckets = some fields) :
    ∀ d, fields.journalV2 = some d → bch2SbJournalV2Validate m d = .ok () := by
  intro d stored
  unfold bch2JournalBucketsToSb at written
  split at written
  · rw [← Option.some.inj written] at stored
    cases stored
  · rename_i b rest
    split at written
    · rw [if_pos (journalBucketsCompact_length_eq b rest)] at written
      rw [← Option.some.inj written] at stored
      cases stored
      unfold UINT_MAX at few
      rw [List.length_cons] at few
      have counts := Runs.compact_counts (· + 1) rest b b 1 (by omega)
      have expanded := Runs.flatMap_expand_compact (· + 1) rest b b 1 (by omega) rfl
      rw [Runs.expand_one,List.singleton_append] at expanded
      have runs := journalBucketsCompact_eq rest b b 1 (by omega)
      rw [show Nat.toUInt64 1 = 1 from rfl] at runs
      -- no bucket is the largest u64, so no run wraps
      have fit : ∀ r ∈ Runs.compact (· + 1) b 1 b rest, r.1.toNat + r.2 < 2^64 := by
        intro r member
        apply expand_fits
        intro x inRun
        have inBuckets : x ∈ b :: rest := by
          rw [← expanded]
          exact List.mem_flatMap.mpr ⟨r,member,inRun⟩
        have := UInt64.lt_iff_toNat_lt.mp (inRange x inBuckets).2.2
        have := m.nbuckets.toNat_lt
        omega
      apply (bch2SbJournalV2Validate_ok_iff m _).mpr
      rw [runs,journalV2Covered_runs _ fit,expanded]
      refine ⟨?_,distinct.map fun _ _ same => UInt64.toNat_inj.mp same,?_,?_⟩
      · intro e member
        obtain ⟨r,inRuns,rfl⟩ := List.mem_map.mp member
        have := counts r inRuns
        have := fit r inRuns
        simp only [Nat.toUInt64_eq,UInt64.toNat_ofNat']
        omega
      · intro x member
        obtain ⟨b',inB,rfl⟩ := List.mem_map.mp member
        exact bucket_inRange_toNat.mp (inRange b' inB)
      · rw [List.length_map,List.length_cons,UINT_MAX]
        omega
    · cases written

theorem journal_buckets_written_pass_v2_validate :
    [(5 : UInt64),6,8].Nodup ∧ (∀ b ∈ [(5 : UInt64),6,8], b ≠ 0 ∧ (1 : UInt16).toUInt64 ≤ b ∧ b < 16) ∧
      [(5 : UInt64),6,8].length ≤ UINT_MAX ∧
      bch2JournalBucketsToSb (fun _ => true) [5,6,8] = some ⟨none,some [⟨5,2⟩,⟨8,1⟩]⟩ ∧
      ∀ d, (⟨none,some [⟨5,2⟩,⟨8,1⟩]⟩ : JournalSbFields).journalV2 = some d → bch2SbJournalV2Validate ⟨1,16⟩ d = .ok () := by
  have inRange : ∀ b ∈ [(5 : UInt64),6,8], b ≠ 0 ∧ (1 : UInt16).toUInt64 ≤ b ∧ b < 16 := by
    simp only [List.mem_cons,List.not_mem_nil,or_false,forall_eq_or_imp,forall_eq]
    decide
  have few : [(5 : UInt64),6,8].length ≤ UINT_MAX := by simp [UINT_MAX]
  exact ⟨by decide,inRange,few,rfl,
    @bch2SbJournalV2Validate_toSb ⟨1,16⟩ (fun _ => true) [5,6,8] ⟨none,some [⟨5,2⟩,⟨8,1⟩]⟩ (by decide) inRange few rfl⟩

end Bcachefs
