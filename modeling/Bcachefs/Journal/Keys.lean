import Bcachefs.Bkey.Format
import Bcachefs.Lib.Loop

namespace Bcachefs
open Loop

-- struct journal_key_range_overwritten: logical indices [start, end).
structure JournalKeyRangeOverwritten where
  start : Nat
  stop : Nat
  deriving DecidableEq, Repr

-- struct journal_key, the fields the lookups read; `p` is k->k.p, btree_id and
-- level are its 8-bit fields, and overwritten_range points at one of the range
-- objects of the keys.
structure JournalKey where
  btreeId : Nat
  level : Nat
  overwritten : Bool
  overwrittenRange : Option Nat
  p : Bpos
  deriving DecidableEq, Repr

-- struct journal_keys: `data` holds the `size` slots, of which the size - nr
-- unused ones start at `gap`; `ranges` are the range objects the keys point at,
-- never reused once freed.
structure JournalKeys where
  nr : Nat
  gap : Nat
  data : List JournalKey
  ranges : List JournalKeyRangeOverwritten
  deriving DecidableEq, Repr

def JournalKeys.size (keys : JournalKeys) : Nat := keys.data.length

-- The range object at r.
def JournalKeys.range (keys : JournalKeys) (r : Nat) : JournalKeyRangeOverwritten := keys.ranges.getD r ⟨0,0⟩

inductive JournalKeysError where
  -- a read of keys->data past its last slot
  | readPastData
  -- BUG_ON(*idx > keys->nr)
  | bug
  deriving DecidableEq, Repr

def SIZE_MAX : Nat := 2^64 - 1

-- `--x` on a size_t.
def sizeDec (x : Nat) : Nat := if x = 0 then SIZE_MAX else x - 1

def idxToPos (keys : JournalKeys) (idx : Nat) : Nat :=
  let gapSize := keys.size - keys.nr
  if idx ≥ keys.gap then idx + gapSize else idx

def idxToKey (keys : JournalKeys) (idx : Nat) : Except JournalKeysError JournalKey :=
  match keys.data[idxToPos keys idx]? with
  | some k => .ok k
  | none => .error .readPastData

-- __journal_key_btree_cmp: higher levels first, then btree ids.
def rawJournalKeyBtreeCmp (lBtreeId lLevel : Nat) (r : JournalKey) : Ordering :=
  (cmpInt lLevel r.level).swap.then (cmpInt lBtreeId r.btreeId)

def rawJournalKeyCmp (lBtreeId lLevel : Nat) (lPos : Bpos) (r : JournalKey) : Ordering :=
  (rawJournalKeyBtreeCmp lBtreeId lLevel r).then (bposCmp lPos r.p)

def journalKeyCmp (l r : JournalKey) : Ordering := rawJournalKeyCmp l.btreeId l.level l.p r

-- The binary search of __bch2_journal_key_search over logical indices [l, r).
def rawBch2JournalKeySearchLoop (keys : JournalKeys) (id level : Nat) (pos : Bpos) (l r : Nat) :
    Except JournalKeysError Nat :=
  if _searching : l < r then
    match idxToKey keys (l + (r - l) / 2) with
    | .error e => .error e
    | .ok k =>
      if rawJournalKeyCmp id level pos k = .gt then rawBch2JournalKeySearchLoop keys id level pos (l + (r - l) / 2 + 1) r
      else rawBch2JournalKeySearchLoop keys id level pos l (l + (r - l) / 2)
  else .ok l
termination_by r - l
decreasing_by all_goals omega

def rawBch2JournalKeySearch (keys : JournalKeys) (id level : Nat) (pos : Bpos) : Except JournalKeysError Nat :=
  rawBch2JournalKeySearchLoop keys id level pos 0 keys.nr

-- Where the peeks are: at the `search` label, in the loop that repairs the
-- hint, or in the loop over the keys.
inductive PeekPhase where
  | search
  | rewind
  | scan
  deriving DecidableEq, Repr

structure PeekState where
  phase : PeekPhase
  idx : Nat
  iters : Nat
  deriving DecidableEq, Repr

-- `*idx = x; iters++`, going back to `search` with *idx = 0 on the tenth step.
def peekCount (phase : PeekPhase) (x iters : Nat) : Step PeekState (Option JournalKey × Nat) JournalKeysError :=
  if iters + 1 = 10 then .next ⟨.search,0,iters + 1⟩ else .next ⟨phase,x,iters + 1⟩

def peekSearch (keys : JournalKeys) (id level : Nat) (pos : Bpos) (st : PeekState) :
    Step PeekState (Option JournalKey × Nat) JournalKeysError :=
  if st.idx = 0 then
    match rawBch2JournalKeySearch keys id level pos with
    | .ok idx => .next ⟨.rewind,idx,st.iters⟩
    | .error e => .fail e
  else .next ⟨.rewind,st.idx,st.iters⟩

-- One step of bch2_journal_keys_peek_max.
def peekMaxStep (keys : JournalKeys) (id level : Nat) (pos endPos : Bpos) (st : PeekState) :
    Step PeekState (Option JournalKey × Nat) JournalKeysError :=
  match st.phase with
  | .search => peekSearch keys id level pos st
  | .rewind =>
    if st.idx ≠ 0 then
      match idxToKey keys (st.idx - 1) with
      | .error e => .fail e
      | .ok k =>
        if rawJournalKeyCmp id level endPos k ≠ .gt then peekCount .rewind (st.idx - 1) st.iters
        else .next ⟨.scan,st.idx,st.iters⟩
    else .next ⟨.scan,st.idx,st.iters⟩
  | .scan =>
    if st.idx < keys.nr then
      match idxToKey keys st.idx with
      | .error e => .fail e
      | .ok k =>
        if rawJournalKeyCmp id level endPos k = .lt then .done (none,st.idx)
        else if k.overwritten then
          match k.overwrittenRange with
          | some r => .next ⟨.scan,(keys.range r).stop,st.iters⟩
          | none => .next ⟨.scan,st.idx + 1,st.iters⟩
        else if rawJournalKeyCmp id level pos k ≠ .gt then .done (some k,st.idx)
        else peekCount .scan (st.idx + 1) st.iters
    else .done (none,st.idx)

-- One step of bch2_journal_keys_peek_prev_min.
def peekPrevMinStep (keys : JournalKeys) (id level : Nat) (pos endPos : Bpos) (st : PeekState) :
    Step PeekState (Option JournalKey × Nat) JournalKeysError :=
  match st.phase with
  | .search => peekSearch keys id level pos st
  | .rewind =>
    if st.idx ≠ 0 then
      match idxToKey keys (st.idx - 1) with
      | .error e => .fail e
      | .ok k =>
        if rawJournalKeyCmp id level endPos k ≠ .gt then peekCount .rewind (st.idx + 1) st.iters
        else .next ⟨.scan,st.idx,st.iters⟩
    else .next ⟨.scan,st.idx,st.iters⟩
  | .scan =>
    if st.idx < keys.nr then
      match idxToKey keys st.idx with
      | .error e => .fail e
      | .ok k =>
        if rawJournalKeyCmp id level endPos k = .gt then .done (none,st.idx)
        else if k.overwritten then
          match k.overwrittenRange with
          | some r => .next ⟨.scan,sizeDec (keys.range r).start,st.iters⟩
          | none => .next ⟨.scan,sizeDec st.idx,st.iters⟩
        else if rawJournalKeyCmp id level pos k ≠ .lt then .done (some k,st.idx)
        else peekCount .scan (sizeDec st.idx) st.iters
    else .done (none,st.idx)

-- bch2_journal_keys_peek_max with hint `idx`, run for at most `fuel` steps: the
-- key (none for NULL) and the hint it leaves.
def bch2JournalKeysPeekMax (keys : JournalKeys) (id level : Nat) (pos endPos : Bpos) (idx fuel : Nat) :
    Option (Except JournalKeysError (Option JournalKey × Nat)) :=
  if idx > keys.nr then some (.error .bug) else run (peekMaxStep keys id level pos endPos) fuel ⟨.search,idx,0⟩

def bch2JournalKeysPeekPrevMin (keys : JournalKeys) (id level : Nat) (pos endPos : Bpos) (idx fuel : Nat) :
    Option (Except JournalKeysError (Option JournalKey × Nat)) :=
  if idx > keys.nr then some (.error .bug) else run (peekPrevMinStep keys id level pos endPos) fuel ⟨.search,idx,0⟩

-- The keys in logical order: keys->data[idx_to_pos(i)] for i < nr.
def JournalKeys.logical (keys : JournalKeys) : List JournalKey :=
  (List.range keys.nr).filterMap fun i => keys.data[idxToPos keys i]?

def overwrittenAt (l : List JournalKey) (i : Nat) : Bool := (l[i]?.map (·.overwritten)).getD false

def rangeAt (l : List JournalKey) (i : Nat) : Option Nat := l[i]?.bind (·.overwrittenRange)

-- Every maximal run of two or more overwritten keys points at one range object
-- holding its own bounds; a lone overwritten key points at none.
def RangesConsistent (l : List JournalKey) (ranges : List JournalKeyRangeOverwritten) : Prop :=
  ∀ i, i < l.length → overwrittenAt l i = true →
    match rangeAt l i with
    | none => (i = 0 ∨ overwrittenAt l (i - 1) = false) ∧ overwrittenAt l (i + 1) = false
    | some p =>
      let r := ranges.getD p ⟨0,0⟩
      r.start ≤ i ∧ i < r.stop ∧ r.start + 2 ≤ r.stop ∧ r.stop ≤ l.length ∧
        (∀ j, r.start ≤ j → j < r.stop → overwrittenAt l j = true ∧ rangeAt l j = some p) ∧
        (r.start = 0 ∨ overwrittenAt l (r.start - 1) = false) ∧ overwrittenAt l r.stop = false

-- The condition at one index, decided by cases on the range pointer there.
instance rangeConsistentAtDecidable (l : List JournalKey) (ranges : List JournalKeyRangeOverwritten) (i : Nat) :
    Decidable (match rangeAt l i with
      | none => (i = 0 ∨ overwrittenAt l (i - 1) = false) ∧ overwrittenAt l (i + 1) = false
      | some p =>
        let r := ranges.getD p ⟨0,0⟩
        r.start ≤ i ∧ i < r.stop ∧ r.start + 2 ≤ r.stop ∧ r.stop ≤ l.length ∧
          (∀ j, r.start ≤ j → j < r.stop → overwrittenAt l j = true ∧ rangeAt l j = some p) ∧
          (r.start = 0 ∨ overwrittenAt l (r.start - 1) = false) ∧ overwrittenAt l r.stop = false) :=
  match rangeAt l i with
  | none => inferInstance
  | some _ => inferInstance

instance rangesConsistentDecidable (l : List JournalKey) (ranges : List JournalKeyRangeOverwritten) :
    Decidable (RangesConsistent l ranges) :=
  inferInstanceAs (Decidable (∀ i, i < l.length → overwrittenAt l i = true → _))

-- What the lookups may assume of c->journal_keys.
structure JournalKeysValid (keys : JournalKeys) : Prop where
  gapLe : keys.gap ≤ keys.nr
  nrLe : keys.nr ≤ keys.size
  sorted : keys.logical.IsChain fun l r => journalKeyCmp l r = .lt
  ranges : RangesConsistent keys.logical keys.ranges

-- A live key of btree `id` at `level` with lo <= p <= hi.
def inPeekRange (id level : Nat) (lo hi : Bpos) (k : JournalKey) : Bool :=
  !k.overwritten && k.btreeId == id && k.level == level && bposCmp lo k.p != .gt && bposCmp k.p hi != .gt

-- What the peeks are for: the first such key from pos up to end_pos, and the
-- last one from pos down to end_pos.
def journalKeysPeekMaxSpec (keys : JournalKeys) (id level : Nat) (pos endPos : Bpos) : Option JournalKey :=
  keys.logical.find? (inPeekRange id level pos endPos)

def journalKeysPeekPrevMinSpec (keys : JournalKeys) (id level : Nat) (pos endPos : Bpos) : Option JournalKey :=
  keys.logical.reverse.find? (inPeekRange id level endPos pos)

-- Three live keys of btree 0 at level 0, at offsets 1, 5 and 20, with no gap.
def peekTestKey (offset : UInt64) : JournalKey := ⟨0,0,false,none,⟨0,offset,0⟩⟩
def peekTestKeys : JournalKeys := ⟨3,3,[peekTestKey 1,peekTestKey 5,peekTestKey 20],[]⟩

-- With a fresh hint and a key in [end_pos, pos) just below pos,
-- bch2_journal_keys_peek_prev_min's first loop walks the hint up past the last
-- key and reads past keys->data; and bch2_journal_keys_peek_max from a hint
-- past the first key in range finds nothing.
theorem journal_keys_peek_diverges :
    JournalKeysValid peekTestKeys ∧
      journalKeysPeekPrevMinSpec peekTestKeys 0 0 ⟨0,10,0⟩ ⟨0,3,0⟩ = some (peekTestKey 5) ∧
      (∀ fuel, 4 ≤ fuel →
        bch2JournalKeysPeekPrevMin peekTestKeys 0 0 ⟨0,10,0⟩ ⟨0,3,0⟩ 0 fuel = some (.error .readPastData)) ∧
      journalKeysPeekMaxSpec peekTestKeys 0 0 ⟨0,0,0⟩ ⟨0,30,0⟩ = some (peekTestKey 1) ∧
      ∀ fuel, 3 ≤ fuel → bch2JournalKeysPeekMax peekTestKeys 0 0 ⟨0,0,0⟩ ⟨0,30,0⟩ 3 fuel = some (.ok (none,3)) := by
  have logical : peekTestKeys.logical = [peekTestKey 1,peekTestKey 5,peekTestKey 20] := by decide
  have valid : JournalKeysValid peekTestKeys := by
    refine ⟨by decide,by decide,by rw [logical]; decide,?_⟩
    intro i short flagged
    rw [logical] at short flagged
    simp only [List.length_cons,List.length_nil] at short
    interval_cases i <;> simp [overwrittenAt,peekTestKey] at flagged
  refine ⟨valid,by rw [journalKeysPeekPrevMinSpec,logical]; decide,?_,by rw [journalKeysPeekMaxSpec,logical]; decide,?_⟩
  · intro fuel enough
    unfold bch2JournalKeysPeekPrevMin
    rw [if_neg (by decide)]
    exact run_mono (by decide +kernel) fuel enough
  · intro fuel enough
    unfold bch2JournalKeysPeekMax
    rw [if_neg (by decide)]
    exact run_mono (by decide) fuel enough

end Bcachefs
