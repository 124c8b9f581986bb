import Mathlib

namespace SortedRuns

variable {σ α β : Type} [LinearOrder β]

-- What `fuel` steps of `next` hand out, up to the first step with nothing left.
def drain (next : σ → Option (α × σ)) : Nat → σ → List α
  | 0, _ => []
  | fuel+1, s =>
    match next s with
    | none => []
    | some (x,s') => x :: drain next fuel s'

-- A system that keeps `Inv` and, at every step, hands out an element of least
-- rank among those it holds; `remaining` is what it still holds.
structure LeastFirst (rank : α → β) (next : σ → Option (α × σ)) (remaining : σ → List α) (Inv : σ → Prop) :
    Prop where
  stops : ∀ s, Inv s → next s = none → remaining s = []
  step : ∀ s x s', Inv s → next s = some (x,s') →
    Inv s' ∧ (remaining s).Perm (x :: remaining s') ∧ ∀ y ∈ remaining s', rank x ≤ rank y

variable {rank : α → β} {next : σ → Option (α × σ)} {remaining : σ → List α} {Inv : σ → Prop}

theorem drain_sorted (least : LeastFirst rank next remaining Inv) :
    ∀ fuel s, Inv s → (remaining s).length ≤ fuel →
      (drain next fuel s).Pairwise (fun a b => rank a ≤ rank b) ∧ (drain next fuel s).Perm (remaining s) := by
  intro fuel
  induction fuel with
  | zero =>
    intro s _ short
    have empty : remaining s = [] := List.eq_nil_of_length_eq_zero (by omega)
    simp [drain,empty]
  | succ fuel ih =>
    intro s inv short
    cases stepped : next s with
    | none => simp [drain,stepped,least.stops s inv stepped]
    | some out =>
      obtain ⟨x,s'⟩ := out
      obtain ⟨inv',perm,lowest⟩ := least.step s x s' inv stepped
      have shorter : (remaining s').length ≤ fuel := by
        have lengths := perm.length_eq
        rw [List.length_cons] at lengths
        omega
      obtain ⟨sorted,perm'⟩ := ih s' inv' shorter
      simp only [drain,stepped]
      exact ⟨List.pairwise_cons.mpr ⟨fun y member => lowest y (perm'.subset member),sorted⟩,
        (perm'.cons x).trans perm.symm⟩

theorem head_le_of_runs {x : α} {xs : List α} {runs : List (List α)}
    (sorted : (x :: xs).Pairwise (fun a b => rank a ≤ rank b))
    (runsSorted : ∀ run ∈ runs, run.Pairwise (fun a b => rank a ≤ rank b))
    (heads : ∀ run ∈ runs, ∀ y ∈ run.head?, rank x ≤ rank y) :
    ∀ y ∈ (xs :: runs).flatten, rank x ≤ rank y := by
  intro y member
  obtain ⟨run,runMember,yMember⟩ := List.mem_flatten.mp member
  rcases List.mem_cons.mp runMember with rfl | other
  · exact List.rel_of_pairwise_cons sorted yMember
  · cases run with
    | nil => cases yMember
    | cons z zs =>
      have first : rank x ≤ rank z := heads _ other z rfl
      rcases List.mem_cons.mp yMember with rfl | later
      · exact first
      · exact le_trans first (List.rel_of_pairwise_cons (runsSorted _ other) later)

theorem pairwise_of_isChain {l : List α} (chain : l.IsChain (fun a b => rank a ≤ rank b)) :
    l.Pairwise (fun a b => rank a ≤ rank b) := by
  have transitive : Trans (fun a b : α => rank a ≤ rank b) (fun a b => rank a ≤ rank b) (fun a b => rank a ≤ rank b) :=
    ⟨le_trans⟩
  exact chain.pairwise

theorem pairwise_orderedInsert (x : α) {l : List α} (sorted : l.Pairwise (fun a b => rank a ≤ rank b)) :
    (l.orderedInsert (fun a b => rank a ≤ rank b) x).Pairwise (fun a b => rank a ≤ rank b) := by
  have total : Std.Total (fun a b : α => rank a ≤ rank b) := ⟨fun a b => le_total (rank a) (rank b)⟩
  have transitive : IsTrans α (fun a b => rank a ≤ rank b) := ⟨fun _ _ _ => le_trans⟩
  exact List.Pairwise.orderedInsert x l sorted

theorem isChain_imp_of_mem {R S : α → α → Prop} {l : List α} (imp : ∀ a ∈ l, ∀ b ∈ l, R a b → S a b)
    (chain : l.IsChain R) : l.IsChain S := by
  rw [List.isChain_iff_forall_rel_of_append_cons_cons] at chain ⊢
  intro a b pre post split
  have memA : a ∈ l := by rw [split]; simp
  have memB : b ∈ l := by rw [split]; simp
  exact imp a memA b memB (chain split)

theorem LeastFirst.congr {next' : σ → Option (α × σ)} (least : LeastFirst rank next remaining Inv)
    (same : ∀ s, Inv s → next' s = next s) : LeastFirst rank next' remaining Inv where
  stops s inv ended := least.stops s inv (by rw [← same s inv]; exact ended)
  step s x s' inv stepped := least.step s x s' inv (by rw [← same s inv]; exact stepped)

-- A merge of runs kept in order of their heads: it hands out the first run's head
-- and puts the rest of that run back in place among the others.
section Merge

variable {ρ : Type}

def mergeNext (rank : α → β) (head : ρ → α) (tail : ρ → Option ρ) : List ρ → Option (α × List ρ)
  | [] => none
  | r :: runs => some (head r,match tail r with
    | none => runs
    | some r' => runs.orderedInsert (fun a b => rank (head a) ≤ rank (head b)) r')

-- What a good run holds: its head, then what its rest holds, sorted by rank.
structure IsRun (rank : α → β) (head : ρ → α) (tail : ρ → Option ρ) (contents : ρ → List α) (good : ρ → Prop) :
    Prop where
  unfold : ∀ r, good r → contents r = head r :: ((tail r).map contents).getD []
  tailGood : ∀ r r', good r → tail r = some r' → good r'
  sorted : ∀ r, good r → (contents r).Pairwise (fun a b => rank a ≤ rank b)

-- Good runs in order of their heads.
def MergeInv (rank : α → β) (head : ρ → α) (good : ρ → Prop) (runs : List ρ) : Prop :=
  (∀ r ∈ runs, good r) ∧ runs.Pairwise (fun a b => rank (head a) ≤ rank (head b))

variable {head : ρ → α} {tail : ρ → Option ρ} {contents : ρ → List α} {good : ρ → Prop}

theorem mergeNext_cons (r : ρ) (runs : List ρ) :
    mergeNext rank head tail (r :: runs) = some (head r,match tail r with
      | none => runs
      | some r' => runs.orderedInsert (fun a b => rank (head a) ≤ rank (head b)) r') := rfl

theorem mergeNext_step (run : IsRun rank head tail contents good) {r : ρ} {runs : List ρ}
    (inv : MergeInv rank head good (r :: runs)) :
    ∃ runs', mergeNext rank head tail (r :: runs) = some (head r,runs') ∧ MergeInv rank head good runs' ∧
      (runs'.flatMap contents).Perm (((tail r).map contents).getD [] ++ runs.flatMap contents) := by
  obtain ⟨allGood,sorted⟩ := inv
  have restGood : ∀ r' ∈ runs, good r' := fun r' member => allGood r' (List.mem_cons_of_mem r member)
  have restSorted := (List.pairwise_cons.mp sorted).2
  rw [mergeNext_cons]
  cases tailed : tail r with
  | none => exact ⟨runs,rfl,⟨restGood,restSorted⟩,List.Perm.refl _⟩
  | some r' =>
    have good' := run.tailGood r r' (allGood r List.mem_cons_self) tailed
    refine ⟨_,rfl,⟨?_,@pairwise_orderedInsert ρ β _ (fun a => rank (head a)) r' runs restSorted⟩,
      (List.perm_orderedInsert _ r' runs).flatMap_right contents⟩
    intro q member
    rcases List.mem_cons.mp ((List.perm_orderedInsert _ r' runs).subset member) with rfl | later
    · exact good'
    · exact restGood q later

theorem mergeNext_leastFirst (run : IsRun rank head tail contents good) :
    LeastFirst rank (mergeNext rank head tail) (fun runs => runs.flatMap contents) (MergeInv rank head good) where
  stops runs _ ended := by
    cases runs with
    | nil => rfl
    | cons r runs => cases ended
  step runs x runs' inv stepped := by
    cases runs with
    | nil => cases stepped
    | cons r rest =>
      obtain ⟨runs'',next,inv',perm⟩ := mergeNext_step run inv
      rw [next,Option.some.injEq,Prod.mk.injEq] at stepped
      obtain ⟨rfl,rfl⟩ := stepped
      have rGood := inv.1 r List.mem_cons_self
      have shape := run.unfold r rGood
      refine ⟨inv',?_,?_⟩
      · rw [List.flatMap_cons,shape,List.cons_append]
        exact (perm.cons (head r)).symm
      · -- the first head is least in its own run, and no higher than the heads of the others
        have heads : ∀ q ∈ rest.map contents, ∀ y ∈ q.head?, rank (head r) ≤ rank y := by
          intro q member y first
          obtain ⟨r',member',rfl⟩ := List.mem_map.mp member
          rw [run.unfold r' (inv.1 r' (List.mem_cons_of_mem r member')),List.head?_cons,Option.mem_some_iff] at first
          rw [← first]
          exact List.rel_of_pairwise_cons inv.2 member'
        have runsSorted : ∀ q ∈ rest.map contents, q.Pairwise (fun a b => rank a ≤ rank b) := by
          intro q member
          obtain ⟨r',member',rfl⟩ := List.mem_map.mp member
          exact run.sorted r' (inv.1 r' (List.mem_cons_of_mem r member'))
        have least := head_le_of_runs (shape ▸ run.sorted r rGood) runsSorted heads
        intro y member
        apply least y
        rw [List.flatten_cons,← List.flatMap_def]
        exact perm.subset member

theorem mergeNext_second_head {γ : Type} [LinearOrder γ] {key : α → γ} {r r2 : ρ} {rest : List ρ}
    (climbs : ∀ r', tail r = some r' →
      key (head r) < key (head r') ∧ (rank (head r') ≤ rank (head r2) → key (head r') ≤ key (head r2))) :
    ∃ q runs', mergeNext rank head tail (r :: r2 :: rest) = some (head r,q :: runs') ∧
      (key (head r) = key (head q) ↔ key (head r) = key (head r2)) := by
  rw [mergeNext_cons]
  cases tailed : tail r with
  | none => exact ⟨r2,rest,rfl,Iff.rfl⟩
  | some r' =>
    obtain ⟨higher,mono⟩ := climbs r' tailed
    by_cases low : rank (head r') ≤ rank (head r2)
    · refine ⟨r',r2 :: rest,by simp only [List.orderedInsert_cons,if_pos low],?_⟩
      have below := lt_of_lt_of_le higher (mono low)
      constructor
      · intro same
        exact absurd same (ne_of_lt higher)
      · intro same
        exact absurd same (ne_of_lt below)
    · exact ⟨r2,rest.orderedInsert (fun a b => rank (head a) ≤ rank (head b)) r',
        by simp only [List.orderedInsert_cons,if_neg low],Iff.rfl⟩

end Merge

-- Keeping the last of each stretch of neighbours that `same` relates: an element is
-- dropped where the one after it is the same.
section Shadowing

variable {γ : Type} [LinearOrder γ]

def dropShadowed (same : α → α → Bool) : List α → List α
  | x :: y :: rest => if same x y then dropShadowed same (y :: rest) else x :: dropShadowed same (y :: rest)
  | l => l

theorem dropShadowed_cons (same : α → α → Bool) (x : α) (l : List α) :
    dropShadowed same (x :: l) = if l.head?.any (same x) then dropShadowed same l else x :: dropShadowed same l := by
  cases l with
  | nil => rfl
  | cons y rest => rfl

theorem dropShadowed_sublist (same : α → α → Bool) : ∀ l : List α, (dropShadowed same l).Sublist l
  | [] => List.Sublist.refl _
  | [_] => List.Sublist.refl _
  | x :: y :: rest => by
    unfold dropShadowed
    split
    · exact (dropShadowed_sublist same (y :: rest)).cons x
    · exact (dropShadowed_sublist same (y :: rest)).cons_cons x

variable {key : α → γ}

theorem mem_dropShadowed : ∀ {l : List α}, l.Pairwise (fun a b => rank a < rank b) →
    (∀ a ∈ l, ∀ b ∈ l, rank a ≤ rank b → key a ≤ key b) → ∀ x,
      (x ∈ dropShadowed (fun a b => key a == key b) l ↔ x ∈ l ∧ ∀ y ∈ l, key y = key x → rank y ≤ rank x)
  | [],_,_,x => by simp [dropShadowed]
  | [a],_,_,x => by
    simp only [dropShadowed,List.mem_singleton]
    constructor
    · rintro rfl
      exact ⟨rfl,fun y same _ => by rw [same]⟩
    · exact fun kept => kept.1
  | a :: b :: rest,sorted,mono,x => by
    have tailMono : ∀ c ∈ b :: rest, ∀ d ∈ b :: rest, rank c ≤ rank d → key c ≤ key d :=
      fun c cMem d dMem => mono c (List.mem_cons_of_mem a cMem) d (List.mem_cons_of_mem a dMem)
    have ih := mem_dropShadowed sorted.of_cons tailMono x
    have aLow : ∀ z ∈ b :: rest, rank a < rank z := fun z member => List.rel_of_pairwise_cons sorted member
    have bLow : ∀ z ∈ b :: rest, key b ≤ key z := by
      intro z member
      rcases List.mem_cons.mp member with rfl | later
      · exact le_refl _
      · exact tailMono b List.mem_cons_self z member (le_of_lt (List.rel_of_pairwise_cons sorted.of_cons later))
    have abMono := mono a List.mem_cons_self b (List.mem_cons_of_mem a List.mem_cons_self)
      (le_of_lt (aLow b List.mem_cons_self))
    unfold dropShadowed
    split
    · -- a is shadowed by b, which has its key and outranks it
      rename_i sameKey
      rw [beq_iff_eq] at sameKey
      rw [ih]
      constructor
      · rintro ⟨member,top⟩
        refine ⟨List.mem_cons_of_mem a member,fun y yMem sameY => ?_⟩
        rcases List.mem_cons.mp yMem with rfl | later
        · exact le_of_lt (aLow x member)
        · exact top y later sameY
      · rintro ⟨member,top⟩
        rcases List.mem_cons.mp member with rfl | later
        · have := top b (List.mem_cons_of_mem _ List.mem_cons_self) sameKey.symm
          exact absurd (aLow b List.mem_cons_self) (not_lt.mpr this)
        · exact ⟨later,fun y yMem sameY => top y (List.mem_cons_of_mem a yMem) sameY⟩
    · -- a is the last of its key: everything after it has a higher one
      rename_i differ
      rw [beq_iff_eq] at differ
      have above : ∀ z ∈ b :: rest, key a < key z := fun z member =>
        lt_of_lt_of_le (lt_of_le_of_ne abMono differ) (bLow z member)
      rw [List.mem_cons,ih]
      constructor
      · rintro (rfl | ⟨member,top⟩)
        · refine ⟨List.mem_cons_self,fun y yMem sameY => ?_⟩
          rcases List.mem_cons.mp yMem with rfl | later
          · exact le_refl _
          · exact absurd sameY (ne_of_gt (above y later))
        · refine ⟨List.mem_cons_of_mem a member,fun y yMem sameY => ?_⟩
          rcases List.mem_cons.mp yMem with rfl | later
          · exact absurd sameY.symm (ne_of_gt (above x member))
          · exact top y later sameY
      · rintro ⟨member,top⟩
        rcases List.mem_cons.mp member with rfl | later
        · exact Or.inl rfl
        · exact Or.inr ⟨later,fun y yMem sameY => top y (List.mem_cons_of_mem a yMem) sameY⟩

theorem dropShadowed_sorted {l : List α} (sorted : l.Pairwise (fun a b => rank a < rank b))
    (mono : ∀ a ∈ l, ∀ b ∈ l, rank a ≤ rank b → key a ≤ key b) :
    (dropShadowed (fun a b => key a == key b) l).Pairwise (fun a b => key a < key b) := by
  refine (sorted.sublist (dropShadowed_sublist _ l)).imp_of_mem ?_
  intro a b aMem bMem before
  obtain ⟨aIn,aTop⟩ := (mem_dropShadowed sorted mono a).mp aMem
  have bIn := ((mem_dropShadowed sorted mono b).mp bMem).1
  rcases lt_or_eq_of_le (mono a aIn b bIn (le_of_lt before)) with lower | same
  · exact lower
  · exact absurd (aTop b bIn same.symm) (not_le.mpr before)

theorem dropShadowed_of_perm {l all : List α} (sorted : l.Pairwise (fun a b => rank a ≤ rank b)) (perm : l.Perm all)
    (distinct : all.Nodup) (inj : ∀ a ∈ all, ∀ b ∈ all, rank a = rank b → a = b)
    (mono : ∀ a ∈ all, ∀ b ∈ all, rank a ≤ rank b → key a ≤ key b) :
    (dropShadowed (fun a b => key a == key b) l).Pairwise (fun a b => key a < key b) ∧
      ∀ x, x ∈ dropShadowed (fun a b => key a == key b) l ↔ x ∈ all ∧ ∀ y ∈ all, key y = key x → rank y ≤ rank x := by
  have strict : l.Pairwise (fun a b => rank a < rank b) :=
    (sorted.and (perm.nodup_iff.mpr distinct)).imp_of_mem fun aMem bMem ⟨le,apart⟩ =>
      lt_of_le_of_ne le fun same => apart (inj _ (perm.subset aMem) _ (perm.subset bMem) same)
  have monoL : ∀ a ∈ l, ∀ b ∈ l, rank a ≤ rank b → key a ≤ key b := fun a aMem b bMem =>
    mono a (perm.subset aMem) b (perm.subset bMem)
  refine ⟨dropShadowed_sorted strict monoL,fun x => ?_⟩
  rw [mem_dropShadowed strict monoL]
  simp only [perm.mem_iff]

end Shadowing

end SortedRuns
