import Mathlib
import Bcachefs.Journal.Keys
import Bcachefs.Lib.Bytes

namespace Bcachefs

instance : Inhabited JournalKey := ⟨⟨0,0,false,none,⟨0,0,0⟩⟩⟩

-- struct journal_iter: the btree and level it walks and its physical index.
structure JournalIter where
  btreeId : Nat
  level : Nat
  idx : Nat
  deriving DecidableEq, Repr

-- c->journal_keys and the iterators on c->journal_iters.
structure JournalKeysState where
  keys : JournalKeys
  iters : List JournalIter
  deriving DecidableEq, Repr

def posToIdx (keys : JournalKeys) (pos : Nat) : Except JournalKeysError Nat :=
  let gapSize := keys.size - keys.nr
  if pos ≥ keys.gap ∧ pos < keys.gap + gapSize then .error .bug
  else .ok (if pos ≥ keys.gap then pos - gapSize else pos)

-- bch2_journal_key_search: the physical position of the first key not below.
def bch2JournalKeySearch (keys : JournalKeys) (id level : Nat) (pos : Bpos) : Except JournalKeysError Nat :=
  (rawBch2JournalKeySearch keys id level pos).map (idxToPos keys)

def journalItersMoveGap (keys : JournalKeys) (iters : List JournalIter) (oldGap newGap : Nat) : List JournalIter :=
  let gapSize := keys.size - keys.nr
  iters.map fun iter =>
    let idx := if iter.idx > oldGap then iter.idx - gapSize else iter.idx
    { iter with idx := if idx ≥ newGap then idx + gapSize else idx }

-- journal_iters_fix: an iterator just past the key before the gap, on its btree
-- and level, moves back onto it.
def journalItersFix (keys : JournalKeys) (iters : List JournalIter) : List JournalIter :=
  let gapEnd := keys.gap + (keys.size - keys.nr)
  let newKey := keys.data.getD (keys.gap - 1) default
  iters.map fun iter =>
    if iter.idx = gapEnd ∧ newKey.btreeId = iter.btreeId ∧ newKey.level = iter.level then
      { iter with idx := keys.gap - 1 }
    else iter

def rawMoveGap (data : List JournalKey) (nr size oldGap newGap : Nat) : Option (List JournalKey) :=
  let gapEnd := oldGap + size - nr
  if newGap < oldGap then Bytes.memmove data (gapEnd - (oldGap - newGap)) newGap (oldGap - newGap)
  else if newGap > oldGap then Bytes.memmove data oldGap gapEnd (newGap - oldGap)
  else some data

def moveGap (keys : JournalKeys) (newGap : Nat) : Except JournalKeysError JournalKeys :=
  if newGap > keys.nr ∨ keys.gap > keys.nr then .error .bug
  else
    match rawMoveGap keys.data keys.nr keys.size keys.gap newGap with
    | some data => .ok { keys with data := data, gap := newGap }
    | none => .error .readPastData

-- The full case of bch2_journal_key_insert_take: a new array twice the size, at
-- least 16, with the keys in front and the gap after them. The allocation succeeds.
def journalKeysGrow (st : JournalKeysState) : JournalKeysState :=
  let keys := st.keys
  ⟨⟨keys.nr,keys.nr,keys.data.take keys.nr ++ List.replicate (max keys.size 8 * 2 - keys.nr) default,keys.ranges⟩,
    journalItersMoveGap keys st.iters keys.gap keys.size⟩

-- The gap moved to logical index idx with the iterators, the new key at its start.
def journalKeyInsertAt (st : JournalKeysState) (idx : Nat) (n : JournalKey) : Except JournalKeysError JournalKeysState :=
  let iters := journalItersMoveGap st.keys st.iters st.keys.gap idx
  match moveGap st.keys idx with
  | .error e => .error e
  | .ok keys =>
    let keys := { keys with nr := keys.nr + 1, data := keys.data.set keys.gap n, gap := keys.gap + 1 }
    .ok ⟨keys,journalItersFix keys iters⟩

-- bch2_journal_key_insert_take; rw is test_bit(BCH_FS_rw, &c->flags), which it BUG_ONs.
def bch2JournalKeyInsertTake (st : JournalKeysState) (rw : Bool) (id level : Nat) (p : Bpos) :
    Except JournalKeysError JournalKeysState :=
  let n : JournalKey := ⟨id,level,false,none,p⟩
  match bch2JournalKeySearch st.keys id level p with
  | .error e => .error e
  | .ok idx =>
    if rw then .error .bug
    else if idx < st.keys.size ∧ journalKeyCmp n (st.keys.data.getD idx default) = .eq then
      .ok { st with keys := { st.keys with data := st.keys.data.set idx n } }
    else
      let idx := if idx > st.keys.gap then idx - (st.keys.size - st.keys.nr) else idx
      journalKeyInsertAt (if st.keys.nr = st.keys.size then journalKeysGrow st else st) idx n

def JournalKeys.modifyKey (keys : JournalKeys) (idx : Nat) (f : JournalKey → JournalKey) : JournalKeys :=
  { keys with data := keys.data.modify (idxToPos keys idx) f }

def JournalKeys.setRange (keys : JournalKeys) (r : Nat) (range : JournalKeyRangeOverwritten) : JournalKeys :=
  { keys with ranges := keys.ranges.set r range }

def pointAt (r : Nat) (k : JournalKey) : JournalKey := { k with overwrittenRange := some r }

-- The loop of the joining case: every key of next's range points at prev's.
def repointRange (keys : JournalKeys) (old new : Nat) (is : List Nat) : Except JournalKeysError JournalKeys :=
  is.foldlM (fun keys i =>
    if (keys.data[idxToPos keys i]?.bind (·.overwrittenRange)) ≠ some old then .error .bug
    else .ok (keys.modifyKey i (pointAt new))) keys

-- __bch2_journal_key_overwritten on the key at physical position pos; alloc says
-- whether the kmalloc of a new range object succeeds.
def rawBch2JournalKeyOverwritten (keys : JournalKeys) (pos : Nat) (alloc : Bool) :
    Except JournalKeysError JournalKeys :=
  match posToIdx keys pos with
  | .error e => .error e
  | .ok idx =>
    let keys := { keys with data := keys.data.modify pos fun k => { k with overwritten := true } }
    let prev := if idx > 0 then keys.data[idxToPos keys (idx - 1)]? else none
    let next := if idx + 1 < keys.nr then keys.data[idxToPos keys (idx + 1)]? else none
    let prevOverwritten := (prev.map (·.overwritten)).getD false
    let nextOverwritten := (next.map (·.overwritten)).getD false
    let prevRange := if prevOverwritten then prev.bind (·.overwrittenRange) else none
    let nextRange := if nextOverwritten then next.bind (·.overwrittenRange) else none
    if (prevRange.any fun r => (keys.range r).stop != idx) || (nextRange.any fun r => (keys.range r).start != idx + 1) then
      .error .bug
    else
      match prevRange, nextRange with
      | some pr, some nx =>
        let joined := keys.setRange pr { keys.range pr with stop := (keys.range nx).stop }
        let joined := { joined with data := joined.data.modify pos (pointAt pr) }
        repointRange joined nx pr
          (List.range' (keys.range nx).start ((keys.range nx).stop - (keys.range nx).start))
      | some pr, none =>
        let keys := keys.setRange pr { keys.range pr with stop := (keys.range pr).stop + 1 }
        let keys := { keys with data := keys.data.modify pos (pointAt pr) }
        if nextOverwritten then
          .ok ((keys.setRange pr { keys.range pr with stop := (keys.range pr).stop + 1 }).modifyKey (idx + 1) (pointAt pr))
        else .ok keys
      | none, some nx =>
        let keys := keys.setRange nx { keys.range nx with start := (keys.range nx).start - 1 }
        let keys := { keys with data := keys.data.modify pos (pointAt nx) }
        if prevOverwritten then
          .ok ((keys.setRange nx { keys.range nx with start := (keys.range nx).start - 1 }).modifyKey (idx - 1) (pointAt nx))
        else .ok keys
      | none, none =>
        if (prevOverwritten || nextOverwritten) && alloc then
          let r := keys.ranges.length
          let range : JournalKeyRangeOverwritten :=
            ⟨idx - (if prevOverwritten then 1 else 0),idx + 1 + (if nextOverwritten then 1 else 0)⟩
          let keys := { keys with ranges := keys.ranges ++ [range] }
          let keys := { keys with data := keys.data.modify pos (pointAt r) }
          let keys := if prevOverwritten then keys.modifyKey (idx - 1) (pointAt r) else keys
          .ok (if nextOverwritten then keys.modifyKey (idx + 1) (pointAt r) else keys)
        else .ok keys

def bch2JournalKeyOverwritten (keys : JournalKeys) (btree level : Nat) (p : Bpos) (alloc : Bool) :
    Except JournalKeysError JournalKeys :=
  match bch2JournalKeySearch keys btree level p with
  | .error e => .error e
  | .ok idx =>
    match keys.data[idx]? with
    | some k =>
      if k.btreeId = btree ∧ k.level = level ∧ k.p = p ∧ k.overwritten = false then
        rawBch2JournalKeyOverwritten keys idx alloc
      else .ok keys
    | none => .ok keys

end Bcachefs
