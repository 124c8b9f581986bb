import Mathlib

namespace Runs

-- Runs of consecutive values: a value and a count stand for the value and its
-- successors, as many as the count.
section Successor

variable {α : Type} (succ : α → α)

def expand (x : α) (n : Nat) : List α := (List.range n).map fun j => succ^[j] x

theorem expand_succ (x : α) (n : Nat) : expand succ x (n+1) = expand succ x n ++ [succ^[n] x] := by
  rw [expand,List.range_succ,List.map_append,List.map_singleton]
  rfl

theorem expand_one (x : α) : expand succ x 1 = [x] := rfl

@[simp] theorem length_expand (x : α) (n : Nat) : (expand succ x n).length = n := by
  rw [expand,List.length_map,List.length_range]

variable [DecidableEq α]

-- Compaction into runs. The run in progress starts at start, holds n values and ends
-- at last; a value that follows last extends it, any other starts the next run.
def compact (start : α) (n : Nat) (last : α) : List α → List (α × Nat)
  | [] => [(start,n)]
  | b :: rest => if b = succ last then compact start (n+1) b rest else (start,n) :: compact b 1 b rest

theorem flatMap_expand_compact :
    ∀ (bs : List α) (start last : α) (n : Nat), 0 < n → last = succ^[n-1] start →
      (compact succ start n last bs).flatMap (fun r => expand succ r.1 r.2) = expand succ start n ++ bs
  | [],start,_,n,_,_ => by rw [compact,List.flatMap_singleton,List.append_nil]
  | b :: rest,start,last,n,positive,ends => by
    unfold compact
    split
    · rename_i follows
      have next : b = succ^[n] start := by
        obtain ⟨m,rfl⟩ : ∃ m, n = m + 1 := ⟨n-1,by omega⟩
        rw [follows,ends,Nat.add_sub_cancel,Function.iterate_succ_apply']
      rw [flatMap_expand_compact rest start b (n+1) (by omega) (by rw [Nat.add_sub_cancel]; exact next),expand_succ,
        List.append_assoc,List.singleton_append,← next]
    · rw [List.flatMap_cons,flatMap_expand_compact rest b b 1 (by omega) rfl,expand_one,List.singleton_append]

theorem compact_counts :
    ∀ (bs : List α) (start last : α) (n : Nat), 0 < n →
      ∀ r ∈ compact succ start n last bs, 0 < r.2 ∧ r.2 ≤ n + bs.length
  | [],_,_,_,positive,r,member => by
    rw [compact,List.mem_singleton] at member
    subst member
    exact ⟨positive,by simp⟩
  | b :: rest,start,last,n,positive,r,member => by
    unfold compact at member
    split at member
    · have bounded := compact_counts rest start b (n+1) (by omega) r member
      rw [List.length_cons]
      omega
    · rcases List.mem_cons.mp member with rfl | later
      · exact ⟨positive,by simp⟩
      · have bounded := compact_counts rest b b 1 (by omega) r later
        rw [List.length_cons]
        omega

end Successor

-- Intervals [start i, stop i) for i < n, sorted by where they start: where each stops
-- before the next starts they are disjoint, and where their values are distinct each
-- stops before the next starts.
section Intervals

variable {start stop : Nat → Nat} {n : Nat}

def Chained (start stop : Nat → Nat) (n : Nat) : Prop := ∀ i, i + 1 < n → stop i ≤ start (i+1)

def intervals (start stop : Nat → Nat) (n : Nat) : List Nat :=
  (List.range n).flatMap fun i => List.range' (start i) (stop i - start i)

theorem mem_intervals {x : Nat} : x ∈ intervals start stop n ↔ ∃ i < n, start i ≤ x ∧ x < stop i := by
  simp only [intervals,List.mem_flatMap,List.mem_range,List.mem_range'_1]
  constructor
  · rintro ⟨i,inside,low,high⟩
    exact ⟨i,inside,low,by omega⟩
  · rintro ⟨i,inside,low,high⟩
    exact ⟨i,inside,low,by omega⟩

theorem Chained.stop_le_start (nonempty : ∀ i < n, start i < stop i) (chain : Chained start stop n) :
    ∀ i j, i < j → j < n → stop i ≤ start j := by
  intro i j before inside
  induction j with
  | zero => omega
  | succ j ih =>
    have linked := chain j inside
    by_cases same : i = j
    · subst same
      exact linked
    · have earlier := ih (by omega) (by omega)
      have := nonempty j (by omega)
      omega

theorem Chained.stop_le_last (nonempty : ∀ i < n, start i < stop i) (chain : Chained start stop n) :
    ∀ i < n, stop i ≤ stop (n - 1) := by
  intro i inside
  by_cases last : i = n - 1
  · rw [last]
  · have apart := chain.stop_le_start nonempty i (n - 1) (by omega) (by omega)
    have := nonempty (n - 1) (by omega)
    omega

theorem Chained.nodup (nonempty : ∀ i < n, start i < stop i) (chain : Chained start stop n) :
    (intervals start stop n).Nodup := by
  rw [intervals,List.nodup_flatMap,List.pairwise_iff_getElem]
  refine ⟨fun i _ => List.nodup_range',?_⟩
  intro i j _ within before x inI inJ
  rw [List.length_range] at within
  rw [List.getElem_range,List.mem_range'_1] at inI
  rw [List.getElem_range,List.mem_range'_1] at inJ
  have apart := chain.stop_le_start nonempty i j before within
  omega

theorem chained_of_nodup (sorted : ∀ i, i + 1 < n → start i ≤ start (i+1)) (nonempty : ∀ i < n, start i < stop i)
    (distinct : (intervals start stop n).Nodup) : Chained start stop n := by
  intro i next
  rw [intervals,List.nodup_flatMap,List.pairwise_iff_getElem] at distinct
  have apart := distinct.2 i (i+1) (by rw [List.length_range]; omega) (by rw [List.length_range]; omega) (by omega)
  rw [List.getElem_range,List.getElem_range] at apart
  have ordered := sorted i next
  have filled := nonempty (i+1) next
  by_contra overlap
  -- the next interval's start lies in both
  exact apart (List.mem_range'_1.mpr ⟨ordered,by omega⟩) (List.mem_range'_1.mpr ⟨le_refl _,by omega⟩)

end Intervals

-- An array sorted on its first n places, read as a function of the index.
section Sorted

variable {β : Type} [LinearOrder β] {f : Nat → β} {n : Nat}

def SortedBelow (f : Nat → β) (n : Nat) : Prop := ∀ i j, i ≤ j → j < n → f i ≤ f j

theorem SortedBelow.strict (sorted : SortedBelow f n) (apart : ∀ i, i + 1 < n → f i ≠ f (i+1)) :
    ∀ i j, i < j → j < n → f i < f j := by
  intro i j before inside
  induction j with
  | zero => omega
  | succ j ih =>
    have step := lt_of_le_of_ne (sorted j (j+1) (by omega) inside) (apart j inside)
    by_cases same : i = j
    · subst same
      exact step
    · exact lt_trans (ih (by omega) (by omega)) step

theorem SortedBelow.nodup_iff (sorted : SortedBelow f n) :
    ((List.range n).map f).Nodup ↔ ∀ i, i + 1 < n → f i ≠ f (i+1) := by
  constructor
  · intro distinct i next same
    have := List.inj_on_of_nodup_map distinct (List.mem_range.mpr (by omega : i < n)) (List.mem_range.mpr next) same
    omega
  · intro apart
    refine List.Nodup.map_on ?_ List.nodup_range
    intro i inI j inJ same
    rw [List.mem_range] at inI inJ
    rcases lt_trichotomy i j with before | equal | after
    · exact absurd same (ne_of_lt (sorted.strict apart i j before inJ))
    · exact equal
    · exact absurd same (ne_of_gt (sorted.strict apart j i after inI))

theorem SortedBelow.bounds (sorted : SortedBelow f n) {x : β} (member : x ∈ (List.range n).map f) :
    f 0 ≤ x ∧ x ≤ f (n - 1) := by
  obtain ⟨i,inside,rfl⟩ := List.mem_map.mp member
  rw [List.mem_range] at inside
  exact ⟨sorted 0 i (Nat.zero_le _) inside,sorted i (n - 1) (by omega) (by omega)⟩

end Sorted

end Runs
