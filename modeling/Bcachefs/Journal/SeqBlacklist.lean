import Mathlib
import Bcachefs.Lib.Bytes
import Bcachefs.Util.EytzingerFind
import Bcachefs.Super.Fields

namespace Bcachefs

open Eytzinger HeapSort

-- struct journal_seq_blacklist_entry, read as the sequence numbers [start, end); stop is
-- the C field end.
structure JournalSeqBlacklistEntry where
  start : Nat
  stop : Nat
deriving DecidableEq, Repr, Inhabited

-- struct journal_seq_blacklist_table_entry.
structure JournalSeqBlacklistTableEntry where
  start : Nat
  stop : Nat
  dirty : Bool
deriving DecidableEq, Repr, Inhabited

-- What the blacklist code reads and writes of struct bch_fs: the superblock's
-- journal_seq_blacklist field (none when the superblock has none), the in-memory
-- table, and journal.oldest_seq_found_ondisk.
structure BlacklistFs where
  field : Option (List JournalSeqBlacklistEntry)
  table : Option (List JournalSeqBlacklistTableEntry)
  oldestSeqFoundOndisk : Nat
deriving DecidableEq, Repr

inductive BlacklistErr where
  | ENOSPC_sb_journal_seq_blacklist
  | writeSuper
  | ENOMEM_blacklist_table_init
deriving DecidableEq, Repr

-- The two failures bch2_sb_journal_seq_blacklist_validate prints: "entry %u start >= end
-- (%llu >= %llu)" and "entry %u out of order with next entry (%llu > %llu)".
inductive BlacklistInvalid where
  | startGeEnd (i start stop : Nat)
  | outOfOrder (i stop nextStart : Nat)
deriving DecidableEq, Repr

section Model

variable {α : Type}

-- sb_blacklist_u64s: the field's size in words for nr entries.
def sbBlacklistU64s (nr : Nat) : Nat := (8 + 16 * nr) / 8

def BCH_SB_FIELD_journal_seq_blacklist : UInt32 := 8

-- array_remove_item: nr -= 1, then memmove(&a[pos], &a[pos + 1], nr - pos entries);
-- what lies from the new nr on stays.
def arrayRemoveItem (a : List α) (nr pos : Nat) : List α :=
  a.take pos ++ (a.drop (pos + 1)).take (nr - 1 - pos) ++ a.drop (nr - 1)

-- array_insert_item: memmove(&a[pos + 1], &a[pos], nr - pos entries), then a[pos] = x.
def arrayInsertItem (a : List α) (nr pos : Nat) (x : α) : List α :=
  a.take pos ++ x :: (a.drop pos).take (nr - pos) ++ a.drop (nr + 1)

-- The field after bch2_sb_field_resize to u64s words: its first (u64s - 1) / 2
-- entries, the new ones zero, as resizePayload has it.
def blacklistResize (a : List JournalSeqBlacklistEntry) (u64s : Nat) : List JournalSeqBlacklistEntry :=
  a.take ((u64s - 1) / 2) ++ List.replicate ((u64s - 1) / 2 - a.length) default

-- The loop of bch2_journal_seq_blacklist_add: what it leaves of the field's entries,
-- nr, i and the interval being added.
structure BlacklistAddLoop where
  entries : List JournalSeqBlacklistEntry
  nr : Nat
  i : Nat
  start : Nat
  stop : Nat
deriving DecidableEq, Repr

-- Stop before an entry past the interval, step over one before it, and merge one that
-- overlaps or touches it into the interval and delete it.
def blacklistAddLoop (a : List JournalSeqBlacklistEntry) (nr i start stop : Nat) : BlacklistAddLoop :=
  if i < nr then
    let e := a.getD i default
    if stop < e.start then ⟨a,nr,i,start,stop⟩
    else if start > e.stop then blacklistAddLoop a nr (i + 1) start stop
    else blacklistAddLoop (arrayRemoveItem a nr i) (nr - 1) i (min start e.start) (max stop e.stop)
  else ⟨a,nr,i,start,stop⟩
termination_by nr + (nr - i)

-- bch2_blacklist_table_initialize: a zeroed copy of the field's intervals, sorted with
-- eytzinger0_sort by start. allocOk is whether kzalloc found the memory.
def bch2BlacklistTableInitialize (fs : BlacklistFs) (allocOk : Bool) : Except BlacklistErr BlacklistFs :=
  match fs.field with
  | none => .ok fs
  | some bl =>
    if allocOk then
      let entries : Nat → JournalSeqBlacklistTableEntry := fun i => ⟨(bl.getD i default).start,(bl.getD i default).stop,false⟩
      let sorted := eytzinger0Sort (fun l r => compare l.start r.start) entries bl.length
      .ok { fs with table := some ((List.range bl.length).map sorted) }
    else .error .ENOMEM_blacklist_table_init

-- bch2_journal_seq_blacklist_add. resized and writeOk are whether bch2_sb_field_resize
-- returned the field and bch2_write_super succeeded; the error, if any, comes with the
-- state the call leaves.
def bch2JournalSeqBlacklistAdd (fs : BlacklistFs) (start stop : Nat) (resized writeOk allocOk : Bool) :
    BlacklistFs × Option BlacklistErr :=
  let bl := fs.field.getD []
  let r := blacklistAddLoop bl bl.length 0 start stop
  if resized then
    let bl' := arrayInsertItem (blacklistResize r.entries (sbBlacklistU64s (r.nr + 1))) r.nr r.i ⟨r.start,r.stop⟩
    let fs := { fs with field := some bl' }
    if writeOk then
      match bch2BlacklistTableInitialize fs allocOk with
      | .ok fs => (fs,none)
      | .error err => (fs,some err)
    else (fs,some .writeSuper)
  else ({ fs with field := fs.field.map fun _ => r.entries },some .ENOSPC_sb_journal_seq_blacklist)

-- bch2_journal_seq_is_blacklisted: find_le by start, then whether seq is before that
-- entry's end; none is the BUG_ON, or a find that never returns.
def bch2JournalSeqIsBlacklisted (fs : BlacklistFs) (seq : Nat) (dirty : Bool) : Option (Bool × BlacklistFs) :=
  match fs.table with
  | none => some (false,fs)
  | some t => do
    let idx ← eytzinger0FindLe (fun l r => compare l.start r.start) (fun i => t.getD i default) t.length ⟨seq,0,false⟩
    if idx < 0 then some (false,fs)
    else
      let e := t.getD idx.toNat default
      if e.start > seq then none
      else if seq ≥ e.stop then some (false,fs)
      else some (true,if dirty then { fs with table := some (t.set idx.toNat { e with dirty := true }) } else fs)

def blacklistValidateFrom : List JournalSeqBlacklistEntry → Nat → Except BlacklistInvalid Unit
  | [],_ => .ok ()
  | [e],i => if e.start ≥ e.stop then .error (.startGeEnd i e.start e.stop) else .ok ()
  | e :: f :: rest,i =>
    if e.start ≥ e.stop then .error (.startGeEnd i e.start e.stop)
    else if e.stop > f.start then .error (.outOfOrder (i + 1) e.stop f.start)
    else blacklistValidateFrom (f :: rest) (i + 1)

def bch2SbJournalSeqBlacklistValidate (bl : List JournalSeqBlacklistEntry) : Except BlacklistInvalid Unit :=
  blacklistValidateFrom bl 0

-- The loop of bch2_blacklist_entries_gc: i runs over eytzinger0_for_each and src along
-- the field; the entries copied to dst come out in order. none is a BUG_ON.
def blacklistGcLoop (t : List JournalSeqBlacklistTableEntry) (oldest : Nat) :
    List Nat → List JournalSeqBlacklistEntry → Option (List JournalSeqBlacklistEntry)
  | [],_ => some []
  | i :: is,srcs =>
    let src := srcs.headD default
    let te := t.getD i default
    if te.start ≠ src.start then none
    else if te.stop ≠ src.stop then none
    else (blacklistGcLoop t oldest is srcs.tail).map fun kept =>
      if te.dirty || te.stop ≥ oldest then src :: kept else kept

-- bch2_blacklist_entries_gc: compact the kept entries to the front, then resize the field
-- to them, which deletes it when none is kept. The resize of a shrinking field finds room.
def bch2BlacklistEntriesGc (fs : BlacklistFs) : Option (Bool × BlacklistFs) :=
  match fs.field with
  | none => some (false,fs)
  | some bl =>
    match fs.table with
    | none => none
    | some t =>
      if bl.length ≠ t.length then none
      else do
        let kept ← blacklistGcLoop t fs.oldestSeqFoundOndisk (eytzinger0ForEach bl.length) bl
        if kept.length = bl.length then some (false,fs)
        else
          let compacted := kept ++ bl.drop kept.length
          some (true,{ fs with field := if kept.length = 0 then none else some (compacted.take kept.length) })

end Model

section Meaning

-- A field that passes validate: each interval nonempty, each ending where or before
-- the next begins; and one whose intervals do not even touch.
structure BlacklistValid (bl : List JournalSeqBlacklistEntry) : Prop where
  nonempty : ∀ e ∈ bl, e.start < e.stop
  ordered : bl.IsChain fun e f => e.stop ≤ f.start

def BlacklistSeparated (bl : List JournalSeqBlacklistEntry) : Prop := bl.IsChain fun e f => e.stop < f.start

instance (bl : List JournalSeqBlacklistEntry) : Decidable (BlacklistSeparated bl) :=
  inferInstanceAs (Decidable (bl.IsChain fun e f => e.stop < f.start))

-- The sequence numbers a list of entries blacklists.
def BlacklistCovers (bl : List JournalSeqBlacklistEntry) (seq : Nat) : Prop := ∃ e ∈ bl, e.start ≤ seq ∧ seq < e.stop

instance (bl : List JournalSeqBlacklistEntry) (seq : Nat) : Decidable (BlacklistCovers bl seq) :=
  inferInstanceAs (Decidable (∃ e ∈ bl, e.start ≤ seq ∧ seq < e.stop))

@[simp] theorem blacklistCovers_nil (seq : Nat) : ¬ BlacklistCovers [] seq := fun ⟨_,absent,_⟩ => absurd absent List.not_mem_nil

@[simp] theorem blacklistCovers_cons (e : JournalSeqBlacklistEntry) (bl : List JournalSeqBlacklistEntry) (seq : Nat) :
    BlacklistCovers (e :: bl) seq ↔ (e.start ≤ seq ∧ seq < e.stop) ∨ BlacklistCovers bl seq := by
  simp [BlacklistCovers]

@[simp] theorem blacklistCovers_append (bl bl' : List JournalSeqBlacklistEntry) (seq : Nat) :
    BlacklistCovers (bl ++ bl') seq ↔ BlacklistCovers bl seq ∨ BlacklistCovers bl' seq := by
  simp only [BlacklistCovers,List.mem_append]
  constructor
  · rintro ⟨e,(inL | inR),within⟩
    · exact .inl ⟨e,inL,within⟩
    · exact .inr ⟨e,inR,within⟩
  · rintro (⟨e,inL,within⟩ | ⟨e,inR,within⟩)
    · exact ⟨e,.inl inL,within⟩
    · exact ⟨e,.inr inR,within⟩

theorem pairwise_of_chain {sep : Nat → Nat → Prop} (trans : ∀ x y z w, sep x y → y < z → sep z w → sep x w)
    {bl : List JournalSeqBlacklistEntry} (nonempty : ∀ e ∈ bl, e.start < e.stop)
    (chain : bl.IsChain fun e f => sep e.stop f.start) : bl.Pairwise fun e f => sep e.stop f.start := by
  induction bl with
  | nil => exact .nil
  | cons e rest ih =>
    cases rest with
    | nil => exact List.pairwise_singleton _ e
    | cons f rest =>
      rw [List.isChain_cons_cons] at chain
      have tail := ih (fun g member => nonempty g (List.mem_cons_of_mem e member)) chain.2
      refine List.Pairwise.cons (fun g member => ?_) tail
      rcases List.mem_cons.mp member with rfl | later
      · exact chain.1
      · exact trans _ _ _ _ chain.1 (nonempty f (by simp)) (List.rel_of_pairwise_cons tail later)

theorem BlacklistValid.pairwise {bl : List JournalSeqBlacklistEntry} (valid : BlacklistValid bl) :
    bl.Pairwise fun e f => e.stop ≤ f.start :=
  pairwise_of_chain (fun _ _ _ _ _ _ _ => by omega) valid.nonempty valid.ordered

theorem blacklistCovers_iff_getD (bl : List JournalSeqBlacklistEntry) (seq : Nat) :
    BlacklistCovers bl seq ↔ ∃ j, j < bl.length ∧ (bl.getD j default).start ≤ seq ∧ seq < (bl.getD j default).stop := by
  constructor
  · rintro ⟨e,member,within⟩
    obtain ⟨j,jIn,rfl⟩ := List.mem_iff_getElem.mp member
    exact ⟨j,jIn,by rwa [List.getD_eq_getElem _ _ jIn]⟩
  · rintro ⟨j,jIn,within⟩
    rw [List.getD_eq_getElem _ _ jIn] at within
    exact ⟨_,List.getElem_mem jIn,within⟩

section Valid

variable {bl : List JournalSeqBlacklistEntry} (valid : BlacklistValid bl)
include valid

theorem BlacklistValid.stop_le_start {i j : Nat} (before : i < j) (jIn : j < bl.length) :
    (bl.getD i default).stop ≤ (bl.getD j default).start := by
  have ordered := List.pairwise_iff_getElem.mp valid.pairwise i j (by omega) jIn before
  rwa [List.getD_eq_getElem _ _ (by omega),List.getD_eq_getElem _ _ jIn]

theorem BlacklistValid.start_lt_stop {i : Nat} (iIn : i < bl.length) :
    (bl.getD i default).start < (bl.getD i default).stop := by
  rw [List.getD_eq_getElem _ _ iIn]
  exact valid.nonempty _ (List.getElem_mem iIn)

theorem BlacklistValid.start_lt_start {i j : Nat} (before : i < j) (jIn : j < bl.length) :
    (bl.getD i default).start < (bl.getD j default).start :=
  lt_of_lt_of_le (valid.start_lt_stop (by omega)) (valid.stop_le_start before jIn)

theorem BlacklistValid.covers_iff_greatest {k seq : Nat} (kIn : k < bl.length) (kLe : (bl.getD k default).start ≤ seq)
    (greatest : ∀ j, j < bl.length → (bl.getD j default).start ≤ seq → (bl.getD j default).start ≤ (bl.getD k default).start) :
    BlacklistCovers bl seq ↔ seq < (bl.getD k default).stop := by
  rw [blacklistCovers_iff_getD]
  constructor
  · rintro ⟨j,jIn,jLe,jAbove⟩
    rcases lt_trichotomy j k with before | rfl | after
    · have := valid.stop_le_start before kIn
      omega
    · exact jAbove
    · have := valid.start_lt_start after jIn
      have := greatest j jIn jLe
      omega
  · intro below
    exact ⟨k,kIn,kLe,below⟩

end Valid

end Meaning

section Loop

variable {α : Type}

theorem sbBlacklistU64s_entries (nr : Nat) : (sbBlacklistU64s nr - 1) / 2 = nr := by
  unfold sbBlacklistU64s
  omega

theorem arrayRemoveItem_eq (P R T : List α) (e : α) :
    arrayRemoveItem (P ++ e :: R ++ T) (P.length + R.length + 1) P.length = P ++ R ++ ((e :: R).drop R.length ++ T) := by
  have front : (P ++ e :: R ++ T).take P.length = P := by simp
  have middle : ((P ++ e :: R ++ T).drop (P.length + 1)).take R.length = R := by simp
  have back : (P ++ e :: R ++ T).drop (P.length + R.length) = (e :: R).drop R.length ++ T := by
    rw [List.append_assoc,List.drop_append,List.drop_eq_nil_of_le (by omega),List.nil_append,Nat.add_sub_cancel_left,
      List.drop_append_of_le_length (by simp)]
  unfold arrayRemoveItem
  rw [show P.length + R.length + 1 - 1 - P.length = R.length by omega,
    show P.length + R.length + 1 - 1 = P.length + R.length by omega,front,middle,back]

theorem arrayInsertItem_eq (P R : List α) (x y : α) :
    arrayInsertItem (P ++ R ++ [x]) (P.length + R.length) P.length y = P ++ y :: R := by
  have front : (P ++ R ++ [x]).take P.length = P := by simp
  have middle : ((P ++ R ++ [x]).drop P.length).take (P.length + R.length - P.length) = R := by simp
  have back : (P ++ R ++ [x]).drop (P.length + R.length + 1) = [] := List.drop_eq_nil_of_le (by simp; omega)
  unfold arrayInsertItem
  rw [front,middle,back,List.append_nil]

theorem blacklistResize_grow (L T : List JournalSeqBlacklistEntry) :
    ∃ x, blacklistResize (L ++ T) (sbBlacklistU64s (L.length + 1)) = L ++ [x] := by
  unfold blacklistResize
  rw [sbBlacklistU64s_entries]
  cases T with
  | nil => exact ⟨default,by simp⟩
  | cons t T =>
    refine ⟨t,?_⟩
    rw [List.take_append,List.take_of_length_le (by omega),Nat.add_sub_cancel_left]
    simp

theorem blacklistAddLoop_nr (a : List JournalSeqBlacklistEntry) (nr i start stop : Nat) :
    (blacklistAddLoop a nr i start stop).nr ≤ nr ∧
      ((blacklistAddLoop a nr i start stop).nr = nr → (blacklistAddLoop a nr i start stop).entries = a) := by
  fun_induction blacklistAddLoop a nr i start stop with
  | case1 => exact ⟨le_rfl,fun _ => rfl⟩
  | case2 a nr i start stop inside e notPast skip ih => exact ih
  | case3 a nr i start stop inside e notPast notSkip ih => exact ⟨by omega,fun same => by omega⟩
  | case4 => exact ⟨le_rfl,fun _ => rfl⟩

theorem mem_merged {s t a b x : Nat} (touchLeft : a ≤ t) (touchRight : s ≤ b) :
    (min s a ≤ x ∧ x < max t b) ↔ (s ≤ x ∧ x < t) ∨ (a ≤ x ∧ x < b) := by
  omega

-- What the loop leaves of the entries P before i and R from i to nr: P' before the
-- new i and R' after it, and [start', stop') to insert between them.
structure AddLoopResult (sep : Nat → Nat → Prop) (P R : List JournalSeqBlacklistEntry) (start stop : Nat)
    (P' R' : List JournalSeqBlacklistEntry) (start' stop' : Nat) : Prop where
  sublist : (P' ++ R').Sublist (P ++ R)
  before : ∀ p ∈ P', sep p.stop start'
  interval : start' < stop'
  after : ∀ f ∈ R'.head?, stop' < f.start
  covers : ∀ seq, (BlacklistCovers (P' ++ R') seq ∨ start' ≤ seq ∧ seq < stop') ↔
    (BlacklistCovers (P ++ R) seq ∨ start ≤ seq ∧ seq < stop)

section Steps

variable {sep : Nat → Nat → Prop} {P R P' R' : List JournalSeqBlacklistEntry} {e : JournalSeqBlacklistEntry}
  {start stop start' stop' : Nat}

theorem AddLoopResult.skip (result : AddLoopResult sep (P ++ [e]) R start stop P' R' start' stop') :
    AddLoopResult sep P (e :: R) start stop P' R' start' stop' := by
  have same : P ++ [e] ++ R = P ++ e :: R := by simp
  obtain ⟨sublist,before,interval,after,covers⟩ := result
  rw [same] at sublist covers
  exact ⟨sublist,before,interval,after,covers⟩

theorem AddLoopResult.merge (touchLeft : e.start ≤ stop) (touchRight : start ≤ e.stop)
    (result : AddLoopResult sep P R (min start e.start) (max stop e.stop) P' R' start' stop') :
    AddLoopResult sep P (e :: R) start stop P' R' start' stop' := by
  obtain ⟨sublist,before,interval,after,covers⟩ := result
  refine ⟨sublist.trans (List.Sublist.append_left (List.sublist_cons_self e R) P),before,interval,after,fun seq => ?_⟩
  rw [covers seq,mem_merged touchLeft touchRight]
  simp only [blacklistCovers_append,blacklistCovers_cons]
  -- the same disjuncts on both sides, in another order
  simp only [or_assoc,or_comm,or_left_comm]

end Steps

theorem blacklistAddLoop_spec {sep : Nat → Nat → Prop} (sepLt : ∀ x y, x < y → sep x y)
    (sepMin : ∀ x y z, sep x y → sep x z → sep x (min y z)) (R : List JournalSeqBlacklistEntry) :
    ∀ (P T : List JournalSeqBlacklistEntry) (start stop : Nat), (P ++ R).Pairwise (fun e f => sep e.stop f.start) →
      (∀ e ∈ P ++ R, e.start < e.stop) → (∀ p ∈ P, sep p.stop start) → start < stop →
      ∃ P' R' T' start' stop', blacklistAddLoop (P ++ R ++ T) (P.length + R.length) P.length start stop =
        ⟨P' ++ R' ++ T',P'.length + R'.length,P'.length,start',stop'⟩ ∧ AddLoopResult sep P R start stop P' R' start' stop' := by
  induction R with
  | nil =>
    intro P T start stop _ _ before interval
    refine ⟨P,[],T,start,stop,?_,⟨by simp,before,interval,by simp,fun seq => by simp⟩⟩
    rw [blacklistAddLoop,if_neg (by simp)]
  | cons e R ih =>
    intro P T start stop pairwise nonempty before interval
    have here : (P ++ e :: R ++ T).getD P.length default = e := by
      rw [List.append_assoc,List.cons_append]
      exact Bytes.getD_append_cons _ _ _ _
    have eNonempty : e.start < e.stop := nonempty e (by simp)
    rw [blacklistAddLoop,if_pos (by simp),here]
    dsimp only
    by_cases past : stop < e.start
    · -- the loop stops before e
      rw [if_pos past]
      refine ⟨P,e :: R,T,start,stop,by simp,⟨List.Sublist.refl _,before,interval,fun f first => ?_,fun seq => Iff.rfl⟩⟩
      rw [List.head?_cons,Option.mem_some_iff] at first
      rw [← first]
      exact past
    · rw [if_neg past]
      by_cases skip : start > e.stop
      · -- e ends before the interval: step over it
        rw [if_pos skip]
        have extended : P ++ [e] ++ R = P ++ e :: R := by simp
        have beforeE : ∀ p ∈ P ++ [e], sep p.stop start := by
          intro p member
          rcases List.mem_append.mp member with old | last
          · exact before p old
          · rw [List.mem_singleton.mp last]
            exact sepLt _ _ skip
        obtain ⟨P',R',T',start',stop',run,result⟩ := ih (P ++ [e]) T start stop (by rw [extended]; exact pairwise)
          (by rw [extended]; exact nonempty) beforeE interval
        refine ⟨P',R',T',start',stop',?_,result.skip⟩
        rw [← run,extended,List.length_append,List.length_singleton]
        congr 1
        simp only [List.length_cons]
        omega
      · -- e overlaps or touches the interval: merge it and delete it
        rw [if_neg skip]
        have touchLeft : e.start ≤ stop := by omega
        have touchRight : start ≤ e.stop := by omega
        have dropped : (P ++ R).Sublist (P ++ e :: R) := List.Sublist.append_left (List.sublist_cons_self e R) P
        obtain ⟨P',R',T',start',stop',run,result⟩ := ih P ((e :: R).drop R.length ++ T) (min start e.start)
          (max stop e.stop) (pairwise.sublist dropped) (fun f member => nonempty f (dropped.subset member))
          (fun p member => sepMin _ _ _ (before p member) ((List.pairwise_append.mp pairwise).2.2 p member e (by simp)))
          (by omega)
        refine ⟨P',R',T',start',stop',?_,result.merge touchLeft touchRight⟩
        rw [show P.length + (e :: R).length = P.length + R.length + 1 by rw [List.length_cons]; omega,arrayRemoveItem_eq,
          show P.length + R.length + 1 - 1 = P.length + R.length by omega]
        exact run

end Loop

section Add

theorem bch2BlacklistTableInitialize_field {fs fs' : BlacklistFs} {allocOk : Bool}
    (init : bch2BlacklistTableInitialize fs allocOk = .ok fs') :
    fs'.field = fs.field ∧ fs'.oldestSeqFoundOndisk = fs.oldestSeqFoundOndisk := by
  unfold bch2BlacklistTableInitialize at init
  split at init
  · cases init
    exact ⟨rfl,rfl⟩
  · split at init
    · cases init
      exact ⟨rfl,rfl⟩
    · cases init

theorem bch2JournalSeqBlacklistAdd_resized (fs : BlacklistFs) (start stop : Nat) (writeOk allocOk : Bool) :
    (bch2JournalSeqBlacklistAdd fs start stop true writeOk allocOk).1.field =
      some (arrayInsertItem (blacklistResize (blacklistAddLoop (fs.field.getD []) (fs.field.getD []).length 0 start stop).entries
        (sbBlacklistU64s ((blacklistAddLoop (fs.field.getD []) (fs.field.getD []).length 0 start stop).nr + 1)))
        (blacklistAddLoop (fs.field.getD []) (fs.field.getD []).length 0 start stop).nr
        (blacklistAddLoop (fs.field.getD []) (fs.field.getD []).length 0 start stop).i
        ⟨(blacklistAddLoop (fs.field.getD []) (fs.field.getD []).length 0 start stop).start,
          (blacklistAddLoop (fs.field.getD []) (fs.field.getD []).length 0 start stop).stop⟩) := by
  unfold bch2JournalSeqBlacklistAdd
  rw [if_pos rfl]
  cases writeOk with
  | false => rfl
  | true =>
    rw [if_pos rfl]
    split
    · next init => exact (bch2BlacklistTableInitialize_field init).1
    · rfl

theorem bch2JournalSeqBlacklistAdd_ok {fs fs' : BlacklistFs} {start stop : Nat} {resized writeOk allocOk : Bool}
    (ok : bch2JournalSeqBlacklistAdd fs start stop resized writeOk allocOk = (fs',none)) :
    resized = true ∧ allocOk = true ∧
      bch2BlacklistTableInitialize { fs with field := (bch2JournalSeqBlacklistAdd fs start stop true true true).1.field } true =
        .ok fs' := by
  have field := bch2JournalSeqBlacklistAdd_resized fs start stop true true
  unfold bch2JournalSeqBlacklistAdd at ok
  cases resized with
  | false => simp at ok
  | true =>
    cases writeOk with
    | false => simp at ok
    | true =>
      rw [if_pos rfl,if_pos rfl] at ok
      split at ok
      · next fs'' init =>
        cases ok
        cases allocOk with
        | false => cases init
        | true =>
          rw [field]
          exact ⟨rfl,rfl,init⟩
      · cases ok

-- bch2_sb_field_resize fails only for want of room: when the loop merged an entry, the
-- field asked for is no larger than the one there, and otherwise the field is as it was.
theorem bch2JournalSeqBlacklistAdd_unresized (fs : BlacklistFs) (start stop : Nat) (writeOk allocOk : Bool) :
    (bch2JournalSeqBlacklistAdd fs start stop false writeOk allocOk).2 = some .ENOSPC_sb_journal_seq_blacklist ∧
      ((bch2JournalSeqBlacklistAdd fs start stop false writeOk allocOk).1.field = fs.field ∨
        sbBlacklistU64s ((blacklistAddLoop (fs.field.getD []) (fs.field.getD []).length 0 start stop).nr + 1) ≤
          sbBlacklistU64s (fs.field.getD []).length) := by
  obtain ⟨shrinks,same⟩ := blacklistAddLoop_nr (fs.field.getD []) (fs.field.getD []).length 0 start stop
  refine ⟨rfl,?_⟩
  by_cases merged : (blacklistAddLoop (fs.field.getD []) (fs.field.getD []).length 0 start stop).nr = (fs.field.getD []).length
  · left
    show fs.field.map (fun _ => (blacklistAddLoop (fs.field.getD []) (fs.field.getD []).length 0 start stop).entries) = fs.field
    rw [same merged]
    cases fs.field with
    | none => rfl
    | some bl => rfl
  · right
    unfold sbBlacklistU64s
    omega

theorem bch2JournalSeqBlacklistAdd_resized_err (fs : BlacklistFs) (start stop : Nat) (writeOk allocOk : Bool) :
    (bch2JournalSeqBlacklistAdd fs start stop true writeOk allocOk).2 ≠ some .ENOSPC_sb_journal_seq_blacklist := by
  unfold bch2JournalSeqBlacklistAdd
  rw [if_pos rfl]
  cases writeOk with
  | false => simp
  | true =>
    rw [if_pos rfl]
    split
    · simp
    · next err init =>
      unfold bch2BlacklistTableInitialize at init
      split at init
      · cases init
      · split at init
        · cases init
        · cases init
          simp

-- With bch2_sb_field_resize as Super.Fields models it, the call fails for want of room
-- only when the field was to grow, which the loop never asks for once it has merged an
-- entry: the field is then as it was.
theorem bch2JournalSeqBlacklistAdd_enospc {fs : BlacklistFs} {start stop : Nat} {sb : BchSbHandle}
    {before after : List SbField} {r : SbField} {resized writeOk allocOk : Bool}
    (fields : sb.HasFields (before ++ r :: after))
    (first : BCH_SB_FIELD_journal_seq_blacklist ∉ before.map SbField.type) (is : r.type = BCH_SB_FIELD_journal_seq_blacklist)
    (size : r.u64s = sbBlacklistU64s (fs.field.getD []).length) (room : sb.HasRoom sb.u64s)
    (resizedIs : resized = ((bch2SbFieldResizeId sb BCH_SB_FIELD_journal_seq_blacklist
      (sbBlacklistU64s ((blacklistAddLoop (fs.field.getD []) (fs.field.getD []).length 0 start stop).nr + 1)).toUInt32).bind
        (·.2)).isSome)
    (failed : (bch2JournalSeqBlacklistAdd fs start stop resized writeOk allocOk).2 = some .ENOSPC_sb_journal_seq_blacklist) :
    (bch2JournalSeqBlacklistAdd fs start stop resized writeOk allocOk).1.field = fs.field := by
  cases resized with
  | true => exact absurd failed (bch2JournalSeqBlacklistAdd_resized_err fs start stop writeOk allocOk)
  | false =>
    rcases (bch2JournalSeqBlacklistAdd_unresized fs start stop writeOk allocOk).2 with same | smaller
    · exact same
    · -- the resize asked for no more words than the field has, so it returned the field
      obtain ⟨sb',found⟩ := bch2SbFieldResizeId_shrink_words fields first is
        (by unfold sbBlacklistU64s; omega) (le_of_le_of_eq smaller size.symm) room
      rw [found] at resizedIs
      cases resizedIs

variable {sep : Nat → Nat → Prop} (sepLt : ∀ x y, x < y → sep x y) (sepLe : ∀ x y, sep x y → x ≤ y)
include sepLt sepLe

theorem AddLoopResult.pairwise_insert {P R P' R' : List JournalSeqBlacklistEntry} {start stop start' stop' : Nat}
    (result : AddLoopResult sep P R start stop P' R' start' stop')
    (pairwise : (P ++ R).Pairwise fun e f => sep e.stop f.start) (nonempty : ∀ e ∈ P ++ R, e.start < e.stop) :
    (P' ++ ⟨start',stop'⟩ :: R').Pairwise fun e f => sep e.stop f.start := by
  have kept := pairwise.sublist result.sublist
  rw [List.pairwise_append] at kept ⊢
  obtain ⟨left,right,across⟩ := kept
  refine ⟨left,List.Pairwise.cons (fun f member => ?_) right,fun p pMember f fMember => ?_⟩
  · -- the interval ends before the first entry after it, and that one before the rest
    cases R' with
    | nil => exact absurd member List.not_mem_nil
    | cons g R' =>
      have first : stop' < g.start := result.after g (by simp)
      rcases List.mem_cons.mp member with rfl | later
      · exact sepLt _ _ first
      · have gNonempty := nonempty g (result.sublist.subset (by simp))
        have := sepLe _ _ (List.rel_of_pairwise_cons right later)
        show sep stop' f.start
        exact sepLt _ _ (by omega)
  · rcases List.mem_cons.mp fMember with rfl | later
    · exact result.before p pMember
    · exact across p pMember f later

variable (sepMin : ∀ x y z, sep x y → sep x z → sep x (min y z))
include sepMin

theorem bch2JournalSeqBlacklistAdd_field {fs : BlacklistFs}
    (pairwise : (fs.field.getD []).Pairwise fun e f => sep e.stop f.start)
    (nonempty : ∀ e ∈ fs.field.getD [], e.start < e.stop) {start stop : Nat} (interval : start < stop) (writeOk allocOk : Bool) :
    ∃ bl', (bch2JournalSeqBlacklistAdd fs start stop true writeOk allocOk).1.field = some bl' ∧
      (bl'.Pairwise fun e f => sep e.stop f.start) ∧ (∀ e ∈ bl', e.start < e.stop) ∧
      (∀ seq, BlacklistCovers bl' seq ↔ BlacklistCovers (fs.field.getD []) seq ∨ start ≤ seq ∧ seq < stop) ∧
      bl'.length ≤ (fs.field.getD []).length + 1 := by
  obtain ⟨P',R',T',start',stop',run,result⟩ := blacklistAddLoop_spec sepLt sepMin (fs.field.getD []) [] [] start stop
    (by simpa using pairwise) (by simpa using nonempty) (by simp) interval
  simp only [List.nil_append,List.append_nil,List.length_nil,Nat.zero_add] at run
  obtain ⟨x,resized⟩ := blacklistResize_grow (P' ++ R') T'
  have inserted := arrayInsertItem_eq P' R' x ⟨start',stop'⟩
  rw [← resized,List.length_append] at inserted
  have kept : (P' ++ R').length ≤ (fs.field.getD []).length := by simpa using result.sublist.length_le
  refine ⟨P' ++ ⟨start',stop'⟩ :: R',?_,?_,fun e member => ?_,fun seq => ?_,?_⟩
  · rw [bch2JournalSeqBlacklistAdd_resized,run]
    exact congrArg some inserted
  · exact result.pairwise_insert sepLt sepLe (by simpa using pairwise) (by simpa using nonempty)
  · have old : ∀ e ∈ P' ++ R', e.start < e.stop := fun e member => nonempty e (by simpa using result.sublist.subset member)
    rcases List.mem_append.mp member with before | rest
    · exact old e (List.mem_append_left R' before)
    · rcases List.mem_cons.mp rest with rfl | after
      · exact result.interval
      · exact old e (List.mem_append_right P' after)
  · have := result.covers seq
    simp only [List.nil_append,blacklistCovers_append,blacklistCovers_cons] at this ⊢
    rw [← this]
    simp only [or_assoc,or_comm]
  · simp only [List.length_append,List.length_cons] at kept ⊢
    omega

end Add

section Table

-- The table holds, at the Eytzinger position of rank k, the interval of the k-th entry
-- of the field.
structure TableCopies (t : List JournalSeqBlacklistTableEntry) (bl : List JournalSeqBlacklistEntry) : Prop where
  length : t.length = bl.length
  copies : ∀ k, k < bl.length → (t.getD (inorderToEytzinger0 k bl.length) default).start = (bl.getD k default).start ∧
    (t.getD (inorderToEytzinger0 k bl.length) default).stop = (bl.getD k default).stop

theorem eq_of_pairwise_lt {β : Type} {f : β → Nat} {l : List β} (strict : l.Pairwise fun a b => f a < f b) {a b : β}
    (aIn : a ∈ l) (bIn : b ∈ l) (same : f a = f b) : a = b := by
  induction l with
  | nil => exact absurd aIn List.not_mem_nil
  | cons x l ih =>
    rw [List.pairwise_cons] at strict
    rcases List.mem_cons.mp aIn with rfl | aIn' <;> rcases List.mem_cons.mp bIn with rfl | bIn'
    · rfl
    · have := strict.1 b bIn'
      omega
    · have := strict.1 a aIn'
      omega
    · exact ih strict.2 aIn' bIn'

theorem getD_map_range {β : Type} (f : Nat → β) {n i : Nat} (inside : i < n) (d : β) :
    ((List.range n).map f).getD i d = f i := by
  simp [List.getD_eq_getElem?_getD,inside]

-- bch2_blacklist_table_initialize on a valid field: sorting the copies by start puts
-- them in Eytzinger order of the field's own order, since the starts are distinct.
theorem bch2BlacklistTableInitialize_copies {fs : BlacklistFs} {bl : List JournalSeqBlacklistEntry}
    (field : fs.field = some bl) (valid : BlacklistValid bl) :
    ∃ t, bch2BlacklistTableInitialize fs true = .ok { fs with table := some t } ∧ TableCopies t bl := by
  let entries : Nat → JournalSeqBlacklistTableEntry := fun i => ⟨(bl.getD i default).start,(bl.getD i default).stop,false⟩
  let sorted := eytzinger0Sort (fun l r => compare l.start r.start) entries bl.length
  obtain ⟨ordered,σ,fixes,permuted⟩ := eytzinger0Sort_sortedLe JournalSeqBlacklistTableEntry.start (n := bl.length) entries
  have fixesBoth : ∀ y, bl.length ≤ y → (σ * inorderPerm bl.length) y = y := by
    intro y above
    rw [Equiv.Perm.mul_apply,inorderPerm_of_le above,fixes y above]
  have strict : ((List.range bl.length).map entries).Pairwise fun a b => a.start < b.start := by
    rw [List.pairwise_map,pairwise_range_iff]
    exact fun i j before jIn => valid.start_lt_start before jIn
  have reordered : ((List.range bl.length).map fun k => sorted (inorderToEytzinger0 k bl.length)) =
      ((List.range bl.length).map (σ * inorderPerm bl.length)).map entries := by
    rw [List.map_map]
    apply List.map_congr_left
    intro k member
    simp only [sorted,permuted,Function.comp_apply,Equiv.Perm.mul_apply,inorderPerm_of_lt (List.mem_range.mp member)]
  -- read in order, the sorted copies are the field's entries in field order
  have inOrder : (List.range bl.length).map entries = (List.range bl.length).map fun k => sorted (inorderToEytzinger0 k bl.length) := by
    have perm := ((HeapSort.range_map_perm fixesBoth).map entries).symm
    rw [← reordered] at perm
    refine @List.Perm.eq_of_pairwise _ (fun a b => a.start ≤ b.start) _ _ (fun a b aIn bIn le ge => ?_)
      (strict.imp le_of_lt) ?_ perm
    · exact eq_of_pairwise_lt strict aIn (perm.symm.subset bIn) (le_antisymm le ge)
    · rw [List.pairwise_map,pairwise_range_iff]
      exact fun i j before jIn => ordered i j before.le jIn
  refine ⟨(List.range bl.length).map sorted,?_,⟨by simp,fun k kIn => ?_⟩⟩
  · unfold bch2BlacklistTableInitialize
    rw [field]
    rfl
  · have same := List.map_inj_left.mp inOrder k (List.mem_range.mpr kIn)
    rw [getD_map_range sorted (inorderToEytzinger0_lt kIn),← same]
    exact ⟨rfl,rfl⟩

variable {t : List JournalSeqBlacklistTableEntry} {bl : List JournalSeqBlacklistEntry}

theorem TableCopies.set (copies : TableCopies t bl) {i : Nat} {x : JournalSeqBlacklistTableEntry}
    (same : x.start = (t.getD i default).start ∧ x.stop = (t.getD i default).stop) : TableCopies (t.set i x) bl := by
  refine ⟨by rw [List.length_set,copies.length],fun k kIn => ?_⟩
  have copy := copies.copies k kIn
  have inside : inorderToEytzinger0 k bl.length < t.length := by
    rw [copies.length]
    exact inorderToEytzinger0_lt kIn
  rw [List.getD_eq_getElem?_getD,List.getElem?_set]
  by_cases here : i = inorderToEytzinger0 k bl.length
  · rw [if_pos here,if_pos (by omega),Option.getD_some,same.1,same.2,here]
    exact copy
  · rw [if_neg here,← List.getD_eq_getElem?_getD]
    exact copy

theorem TableCopies.sortedLe (copies : TableCopies t bl) (valid : BlacklistValid bl) :
    SortedLe JournalSeqBlacklistTableEntry.start (fun i => t.getD i default) t.length := by
  intro i j before jIn
  rw [copies.length] at jIn ⊢
  rw [(copies.copies i (by omega)).1,(copies.copies j jIn).1]
  rcases Nat.lt_or_eq_of_le before with lt | rfl
  · exact (valid.start_lt_start lt jIn).le
  · exact le_rfl

theorem bch2JournalSeqIsBlacklisted_spec (valid : BlacklistValid bl) (copies : TableCopies t bl) (small : bl.length < 2 ^ 31)
    {fs : BlacklistFs} (table : fs.table = some t) (seq : Nat) (dirty : Bool) :
    ∃ t', bch2JournalSeqIsBlacklisted fs seq dirty = some (decide (BlacklistCovers bl seq),{ fs with table := some t' }) ∧
      TableCopies t' bl ∧ (dirty = false → t' = t) := by
  obtain ⟨field,table',oldest⟩ := fs
  dsimp only at table
  subst table
  obtain ⟨r,found,best⟩ := eytzinger0FindLe_spec (copies.sortedLe valid) (⟨seq,0,false⟩ : JournalSeqBlacklistTableEntry)
    (by rw [copies.length]; exact small)
  unfold bch2JournalSeqIsBlacklisted
  dsimp only
  rw [found,Option.bind_eq_bind,Option.bind_some]
  rcases best with ⟨rfl,none⟩ | ⟨i,rfl,iIn,iLe,greatest⟩
  · -- no copy starts at or before seq
    have notCovered : ¬ BlacklistCovers bl seq := by
      rw [blacklistCovers_iff_getD]
      rintro ⟨j,jIn,jLe,_⟩
      refine none (inorderToEytzinger0 j bl.length) (by rw [copies.length]; exact inorderToEytzinger0_lt jIn) ?_
      show (t.getD (inorderToEytzinger0 j bl.length) default).start ≤ seq
      rw [(copies.copies j jIn).1]
      exact jLe
    refine ⟨t,?_,copies,fun _ => rfl⟩
    rw [if_pos (by decide),decide_eq_false notCovered]
  · -- the copy found is that of rank k, the last entry to start at or before seq
    rw [copies.length] at iIn
    have kIn := eytzinger0ToInorder_lt iIn
    have back := inorderToEytzinger0_eytzinger0ToInorder iIn
    obtain ⟨sameStart,sameStop⟩ := copies.copies _ kIn
    rw [back] at sameStart sameStop
    have covers := valid.covers_iff_greatest kIn (sameStart.symm.trans_le iLe) fun j jIn jLe => by
      have below : (t.getD (inorderToEytzinger0 j bl.length) default).start ≤ (t.getD i default).start :=
        greatest (inorderToEytzinger0 j bl.length) (by rw [copies.length]; exact inorderToEytzinger0_lt jIn)
          ((copies.copies j jIn).1.trans_le jLe)
      rwa [(copies.copies j jIn).1,sameStart] at below
    rw [if_neg (by omega),Int.toNat_natCast,if_neg (not_lt.mpr iLe)]
    by_cases past : seq ≥ (t.getD i default).stop
    · have outside : ¬ BlacklistCovers bl seq := by
        rw [covers,← sameStop]
        exact not_lt.mpr past
      refine ⟨t,?_,copies,fun _ => rfl⟩
      rw [if_pos past,decide_eq_false outside]
    · have inside : BlacklistCovers bl seq := by
        rw [covers,← sameStop]
        exact not_le.mp past
      rw [if_neg past,decide_eq_true inside]
      cases dirty with
      | false => exact ⟨t,rfl,copies,fun _ => rfl⟩
      | true => exact ⟨_,rfl,copies.set ⟨rfl,rfl⟩,fun absurd => Bool.noConfusion absurd⟩

end Table

section Gc

-- What gc is to keep of the field, in field order: the entries whose table copy is
-- dirty or ends at or after oldest.
def blacklistGcKept (t : List JournalSeqBlacklistTableEntry) (bl : List JournalSeqBlacklistEntry) (oldest : Nat) :
    List JournalSeqBlacklistEntry :=
  ((List.range bl.length).filter fun k => (t.getD (inorderToEytzinger0 k bl.length) default).dirty ||
    decide ((t.getD (inorderToEytzinger0 k bl.length) default).stop ≥ oldest)).map (bl.getD · default)

variable {t : List JournalSeqBlacklistTableEntry} {bl : List JournalSeqBlacklistEntry}

theorem blacklistGcLoop_copies (copies : TableCopies t bl) (oldest : Nat) (ks : List Nat) (inside : ∀ k ∈ ks, k < bl.length)
    (rest : List JournalSeqBlacklistEntry) :
    blacklistGcLoop t oldest (ks.map (inorderToEytzinger0 · bl.length)) (ks.map (bl.getD · default) ++ rest) =
      some ((ks.filter fun k => (t.getD (inorderToEytzinger0 k bl.length) default).dirty ||
        decide ((t.getD (inorderToEytzinger0 k bl.length) default).stop ≥ oldest)).map (bl.getD · default)) := by
  induction ks with
  | nil => rfl
  | cons k ks ih =>
    obtain ⟨sameStart,sameStop⟩ := copies.copies k (inside k (by simp))
    rw [List.map_cons,List.map_cons,List.cons_append,blacklistGcLoop]
    -- the two BUG_ONs pass; the stop read by the keep test is the table's again
    simp only [List.headD_cons,List.tail_cons,sameStart,sameStop,ne_eq,not_true_eq_false,if_false]
    rw [← sameStop,ih (fun k' member => inside k' (List.mem_cons_of_mem k member)),Option.map_some,List.filter_cons]
    by_cases keep : ((t.getD (inorderToEytzinger0 k bl.length) default).dirty ||
        decide ((t.getD (inorderToEytzinger0 k bl.length) default).stop ≥ oldest)) = true
    · rw [if_pos keep,if_pos keep,List.map_cons]
    · rw [if_neg keep,if_neg keep]

theorem bch2BlacklistEntriesGc_spec (copies : TableCopies t bl) (small : bl.length < 2 ^ 31) {fs : BlacklistFs}
    (field : fs.field = some bl) (table : fs.table = some t) :
    ∃ changed field', bch2BlacklistEntriesGc fs = some (changed,{ fs with field := field' }) ∧
      field'.getD [] = blacklistGcKept t bl fs.oldestSeqFoundOndisk := by
  obtain ⟨field',table',oldest⟩ := fs
  dsimp only at field table ⊢
  subst field table
  have forEach : eytzinger0ForEach bl.length = (List.range bl.length).map (inorderToEytzinger0 · bl.length) := by
    rcases Nat.eq_zero_or_pos bl.length with empty | pos
    · rw [empty]
      rfl
    · exact eytzinger0ForEach_eq pos small
  have loop : blacklistGcLoop t oldest (eytzinger0ForEach bl.length) bl = some (blacklistGcKept t bl oldest) := by
    have whole := blacklistGcLoop_copies copies oldest (List.range bl.length)
      (fun k member => List.mem_range.mp member) []
    rw [List.append_nil,Bytes.map_getD_range,← forEach] at whole
    exact whole
  unfold bch2BlacklistEntriesGc
  dsimp only
  rw [if_neg (by rw [copies.length]; exact not_not.mpr rfl),loop,Option.bind_eq_bind,Option.bind_some]
  by_cases all : (blacklistGcKept t bl oldest).length = bl.length
  · -- nothing to drop: the field stays
    have filtered := all
    rw [blacklistGcKept,List.length_map] at filtered
    have keepsAll := List.filter_eq_self.mpr (List.length_filter_eq_length_iff.mp (filtered.trans List.length_range.symm))
    refine ⟨false,some bl,by rw [if_pos all],?_⟩
    rw [Option.getD_some,blacklistGcKept,keepsAll,Bytes.map_getD_range]
  · rw [if_neg all]
    refine ⟨true,_,rfl,?_⟩
    by_cases none : (blacklistGcKept t bl oldest).length = 0
    · rw [if_pos none]
      exact (List.length_eq_zero_iff.mp none).symm
    · rw [if_neg none,Option.getD_some,List.take_left]

end Gc

section Calls

theorem sbBlacklistU64s_fits {n : Nat} (fits : sbBlacklistU64s n < 2 ^ 32) : n < 2 ^ 31 := by
  unfold sbBlacklistU64s at fits
  omega

theorem journal_seq_blacklist_add_gc (fs : BlacklistFs) (start stop : Nat) (valid : BlacklistValid (fs.field.getD []))
    (interval : start < stop) (fits : sbBlacklistU64s ((fs.field.getD []).length + 1) < 2 ^ 32) :
    (∀ resized writeOk allocOk fs', bch2JournalSeqBlacklistAdd fs start stop resized writeOk allocOk = (fs',none) →
      ∃ bl' t, fs'.field = some bl' ∧ BlacklistValid bl' ∧
        (BlacklistSeparated (fs.field.getD []) → BlacklistSeparated bl') ∧
        fs'.table = some t ∧ TableCopies t bl' ∧
        ∀ seq, bch2JournalSeqIsBlacklisted fs' seq false =
          some (decide (BlacklistCovers (fs.field.getD []) seq ∨ start ≤ seq ∧ seq < stop),fs')) ∧
    (∀ writeOk allocOk fs' err, bch2JournalSeqBlacklistAdd fs start stop true writeOk allocOk = (fs',some err) →
      ∃ bl', fs'.field = some bl' ∧ BlacklistValid bl' ∧
        ∀ seq, BlacklistCovers bl' seq ↔ BlacklistCovers (fs.field.getD []) seq ∨ start ≤ seq ∧ seq < stop) ∧
    (∀ (sb : BchSbHandle) (before : List SbField) (r : SbField) (after : List SbField) (resized writeOk allocOk : Bool),
      sb.HasFields (before ++ r :: after) →
      BCH_SB_FIELD_journal_seq_blacklist ∉ before.map SbField.type → r.type = BCH_SB_FIELD_journal_seq_blacklist →
      r.u64s = sbBlacklistU64s (fs.field.getD []).length → sb.HasRoom sb.u64s →
      resized = ((bch2SbFieldResizeId sb BCH_SB_FIELD_journal_seq_blacklist
        (sbBlacklistU64s ((blacklistAddLoop (fs.field.getD []) (fs.field.getD []).length 0 start stop).nr + 1)).toUInt32).bind
          (·.2)).isSome →
      (bch2JournalSeqBlacklistAdd fs start stop resized writeOk allocOk).2 = some .ENOSPC_sb_journal_seq_blacklist →
      (bch2JournalSeqBlacklistAdd fs start stop resized writeOk allocOk).1.field = fs.field) ∧
    (∀ (gs : BlacklistFs) bl t, gs.field = some bl → gs.table = some t → TableCopies t bl → sbBlacklistU64s bl.length < 2 ^ 32 →
      ∃ changed field', bch2BlacklistEntriesGc gs = some (changed,{ gs with field := field' }) ∧
        field'.getD [] = blacklistGcKept t bl gs.oldestSeqFoundOndisk) := by
  have small := sbBlacklistU64s_fits fits
  -- the resized field, once with entries that may touch and once with entries apart
  have merged : ∀ writeOk allocOk, ∃ bl', (bch2JournalSeqBlacklistAdd fs start stop true writeOk allocOk).1.field = some bl' ∧
      BlacklistValid bl' ∧ (∀ seq, BlacklistCovers bl' seq ↔ BlacklistCovers (fs.field.getD []) seq ∨ start ≤ seq ∧ seq < stop) ∧
      bl'.length < 2 ^ 31 := by
    intro writeOk allocOk
    obtain ⟨bl',field,pairwise,nonempty,covers,length⟩ := bch2JournalSeqBlacklistAdd_field
      (fun _ _ => le_of_lt) (fun _ _ => id) (fun _ _ _ => le_min) valid.pairwise valid.nonempty interval writeOk allocOk
    exact ⟨bl',field,⟨nonempty,pairwise.isChain⟩,covers,by omega⟩
  have apart : ∀ writeOk allocOk, BlacklistSeparated (fs.field.getD []) → ∀ bl',
      (bch2JournalSeqBlacklistAdd fs start stop true writeOk allocOk).1.field = some bl' → BlacklistSeparated bl' := by
    intro writeOk allocOk separated bl' field
    obtain ⟨bl'',field',pairwise,-⟩ := bch2JournalSeqBlacklistAdd_field
      (show ∀ x y : Nat, x < y → x < y from fun _ _ => id) (fun _ _ => le_of_lt) (fun _ _ _ => lt_min)
      (pairwise_of_chain (fun _ _ _ _ _ _ _ => by omega) valid.nonempty separated) valid.nonempty interval writeOk allocOk
    rw [field] at field'
    cases field'
    exact pairwise.isChain
  refine ⟨fun resized writeOk allocOk fs' ok => ?_,fun writeOk allocOk fs' err failed => ?_,
    fun _ _ _ _ _ _ _ fields first is size room resizedIs failed =>
      bch2JournalSeqBlacklistAdd_enospc fields first is size room resizedIs failed,
    fun gs bl t field table copies fitsGc => bch2BlacklistEntriesGc_spec copies (sbBlacklistU64s_fits fitsGc) field table⟩
  · obtain ⟨_,_,init⟩ := bch2JournalSeqBlacklistAdd_ok ok
    obtain ⟨bl',field,valid',covers,length⟩ := merged true true
    rw [field] at init
    obtain ⟨t,built,copies⟩ := @bch2BlacklistTableInitialize_copies { fs with field := some bl' } bl' rfl valid'
    rw [built] at init
    cases init
    refine ⟨bl',t,rfl,valid',fun separated => apart true true separated bl' field,rfl,copies,fun seq => ?_⟩
    obtain ⟨t',answer,-,same⟩ := bch2JournalSeqIsBlacklisted_spec valid' copies length
      (show ({ { fs with field := some bl' } with table := some t } : BlacklistFs).table = some t from rfl) seq false
    rw [answer,same rfl,decide_eq_decide.mpr (covers seq)]
  · obtain ⟨bl',field,valid',covers,-⟩ := merged writeOk allocOk
    rw [failed] at field
    exact ⟨bl',field,valid',covers⟩

theorem journal_seq_blacklist_add_bridges :
    BlacklistValid [⟨1,3⟩,⟨5,7⟩] ∧ ∀ seq,
      bch2JournalSeqIsBlacklisted (bch2JournalSeqBlacklistAdd ⟨some [⟨1,3⟩,⟨5,7⟩],none,0⟩ 3 5 true true true).1 seq false =
        some (decide (BlacklistCovers [⟨1,3⟩,⟨5,7⟩] seq ∨ 3 ≤ seq ∧ seq < 5),
          (bch2JournalSeqBlacklistAdd ⟨some [⟨1,3⟩,⟨5,7⟩],none,0⟩ 3 5 true true true).1) := by
  have valid : BlacklistValid [⟨1,3⟩,⟨5,7⟩] := ⟨by decide,by decide⟩
  obtain ⟨_,_,_,_,_,_,_,lookup⟩ := (journal_seq_blacklist_add_gc ⟨some [⟨1,3⟩,⟨5,7⟩],none,0⟩ 3 5 valid (by decide)
    (by decide)).1 true true true (bch2JournalSeqBlacklistAdd ⟨some [⟨1,3⟩,⟨5,7⟩],none,0⟩ 3 5 true true true).1
      (by decide +kernel)
  exact ⟨valid,lookup⟩

-- An old field whose entries touch keeps them touching; a failed superblock write
-- leaves the new interval in the field, with the table not rebuilt.
theorem journal_seq_blacklist_add_touching_and_failed_write :
    BlacklistValid [⟨1,3⟩,⟨3,5⟩] ∧
      (bch2JournalSeqBlacklistAdd ⟨some [⟨1,3⟩,⟨3,5⟩],none,0⟩ 10 12 true true true).2 = none ∧
      (bch2JournalSeqBlacklistAdd ⟨some [⟨1,3⟩,⟨3,5⟩],none,0⟩ 10 12 true true true).1.field = some [⟨1,3⟩,⟨3,5⟩,⟨10,12⟩] ∧
      ¬ BlacklistSeparated [⟨1,3⟩,⟨3,5⟩,⟨10,12⟩] ∧
      bch2JournalSeqBlacklistAdd ⟨none,none,0⟩ 1 2 true false true = (⟨some [⟨1,2⟩],none,0⟩,some .writeSuper) ∧
      bch2JournalSeqIsBlacklisted ⟨some [⟨1,2⟩],none,0⟩ 1 false = some (false,⟨some [⟨1,2⟩],none,0⟩) :=
  ⟨⟨by decide,by decide⟩,by decide +kernel,by decide +kernel,by decide,by decide +kernel,by decide⟩

end Calls

end Bcachefs
