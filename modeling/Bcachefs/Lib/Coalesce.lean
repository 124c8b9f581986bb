import Mathlib

namespace Coalesce

variable {κ σ V : Type} [DecidableEq σ] (slot : κ → σ)

section Write

variable (upd : κ → Option V → V)

-- A keyed store written one element at a time: writing k gives k's slot the
-- value upd k makes of what the slot held.
def write (t : σ → Option V) (k : κ) : σ → Option V :=
  Function.update t (slot k) (some (upd k (t (slot k))))

-- The writes of a list, all to one slot, applied to what it held.
def writeAt (v : Option V) (ks : List κ) : Option V := ks.foldl (fun v k => some (upd k v)) v

@[simp] theorem writeAt_nil (v : Option V) : writeAt upd v [] = v := rfl

@[simp] theorem writeAt_cons (v : Option V) (k : κ) (ks : List κ) :
    writeAt upd v (k :: ks) = writeAt upd (some (upd k v)) ks := rfl

theorem foldl_write_apply (l : List κ) (t : σ → Option V) (s : σ) :
    l.foldl (write slot upd) t s = writeAt upd (t s) (l.filter (fun k => slot k = s)) := by
  induction l generalizing t with
  | nil => rfl
  | cons k l ih =>
    rw [List.foldl_cons,ih]
    by_cases here : slot k = s
    · rw [List.filter_cons_of_pos (by simpa using here),writeAt_cons]
      subst here
      simp [write]
    · rw [List.filter_cons_of_neg (by simpa using here)]
      simp [write,Function.update_of_ne (Ne.symm here)]

theorem foldl_write_congr {l l' : List κ} (same : ∀ s, l.filter (fun k => slot k = s) = l'.filter (fun k => slot k = s))
    (t : σ → Option V) : l.foldl (write slot upd) t = l'.foldl (write slot upd) t := by
  funext s
  rw [foldl_write_apply,foldl_write_apply,same]

end Write

section Coalesce

variable (merge : κ → κ → κ)

-- Each element is merged into the next while the two share a slot, so that
-- one element is left of every run; `merge n k` is n having absorbed the
-- earlier k.
def coalesce : List κ → List κ
  | [] => []
  | [k] => [k]
  | k :: n :: rest => if slot k = slot n then coalesce (merge n k :: rest) else k :: coalesce (n :: rest)
termination_by l => l.length

-- A run k :: ks merged from its front: what its last element holds at the end.
def mergeRun (k : κ) (ks : List κ) : κ := ks.foldl (fun acc n => merge n acc) k

-- The one element a run's filter leaves after coalescing.
def runOf : List κ → List κ
  | [] => []
  | k :: ks => [mergeRun merge k ks]

@[simp] theorem mergeRun_nil (k : κ) : mergeRun merge k [] = k := rfl

@[simp] theorem mergeRun_cons (k n : κ) (ks : List κ) : mergeRun merge k (n :: ks) = mergeRun merge (merge n k) ks := rfl

theorem coalesce_merge {k n : κ} {rest : List κ} (same : slot k = slot n) :
    coalesce slot merge (k :: n :: rest) = coalesce slot merge (merge n k :: rest) := by
  rw [coalesce,if_pos same]

theorem coalesce_keep {k n : κ} {rest : List κ} (other : slot k ≠ slot n) :
    coalesce slot merge (k :: n :: rest) = k :: coalesce slot merge (n :: rest) := by
  rw [coalesce,if_neg other]

theorem coalesce_cons_of_ne {k : κ} {ks : List κ} (ends : ∀ n ∈ ks.head?, slot k ≠ slot n) :
    coalesce slot merge (k :: ks) = k :: coalesce slot merge ks := by
  cases ks with
  | nil => simp [coalesce]
  | cons n ks => exact coalesce_keep slot merge (ends n rfl)

section Slots

variable {slot merge}
variable (keeps : ∀ n k, slot (merge n k) = slot n)
include keeps

theorem slot_mem_coalesce (l : List κ) : ∀ x ∈ coalesce slot merge l, ∃ y ∈ l, slot x = slot y := by
  match l with
  | [] => simp [coalesce]
  | [k] => simp [coalesce]
  | k :: n :: rest =>
    intro x member
    by_cases same : slot k = slot n
    · rw [coalesce_merge slot merge same] at member
      obtain ⟨y,yMember,ySlot⟩ := slot_mem_coalesce (merge n k :: rest) x member
      rcases List.mem_cons.mp yMember with rfl | inRest
      · exact ⟨n,by simp,by rw [ySlot,keeps]⟩
      · exact ⟨y,by simp [inRest],ySlot⟩
    · rw [coalesce_keep slot merge same] at member
      rcases List.mem_cons.mp member with rfl | inTail
      · exact ⟨x,by simp,rfl⟩
      · obtain ⟨y,yMember,ySlot⟩ := slot_mem_coalesce (n :: rest) x inTail
        exact ⟨y,List.mem_cons_of_mem _ yMember,ySlot⟩
termination_by l.length

variable {β : Type} [LinearOrder β] {ord : σ → β}

theorem filter_coalesce (inj : Function.Injective ord) (l : List κ)
    (sorted : l.Pairwise (fun a b => ord (slot a) ≤ ord (slot b))) (s : σ) :
    (coalesce slot merge l).filter (fun k => slot k = s) = runOf merge (l.filter (fun k => slot k = s)) := by
  match l with
  | [] => simp [coalesce,runOf]
  | [k] => by_cases here : slot k = s <;> simp [coalesce,runOf,here]
  | k :: n :: rest =>
    have kn := List.rel_of_pairwise_cons sorted (List.mem_cons_self)
    by_cases same : slot k = slot n
    · -- k is absorbed into n, whose place keeps the order
      have sorted' : (merge n k :: rest).Pairwise (fun a b => ord (slot a) ≤ ord (slot b)) := by
        refine List.Pairwise.cons (fun x member => ?_) (List.Pairwise.of_cons (List.Pairwise.of_cons sorted))
        rw [keeps]
        exact List.rel_of_pairwise_cons (List.Pairwise.of_cons sorted) member
      rw [coalesce_merge slot merge same,filter_coalesce inj _ sorted' s]
      by_cases here : slot k = s
      · have nHere : slot n = s := same ▸ here
        have mHere : slot (merge n k) = s := by rw [keeps,nHere]
        simp [here,nHere,mHere,runOf]
      · have nThere : ¬ slot n = s := same ▸ here
        have mThere : ¬ slot (merge n k) = s := by rw [keeps]; exact nThere
        simp [here,nThere,mThere]
    · -- k ends its run: no later element shares its slot
      have later : ∀ x ∈ n :: rest, slot x ≠ slot k := by
        intro x member same'
        have nx : ord (slot n) ≤ ord (slot x) := by
          rcases List.mem_cons.mp member with rfl | inRest
          · exact le_rfl
          · exact List.rel_of_pairwise_cons (List.Pairwise.of_cons sorted) inRest
        exact same (inj (le_antisymm kn (same' ▸ nx)))
      by_cases here : slot k = s
      · have none : (n :: rest).filter (fun k => slot k = s) = [] := by
          rw [List.filter_eq_nil_iff]
          intro x member
          simpa [← here] using later x member
        have noneC : (coalesce slot merge (n :: rest)).filter (fun k => slot k = s) = [] := by
          rw [List.filter_eq_nil_iff]
          intro x member
          obtain ⟨y,yMember,ySlot⟩ := slot_mem_coalesce keeps (n :: rest) x member
          simpa [ySlot,← here] using later y yMember
        rw [coalesce_keep slot merge same,List.filter_cons_of_pos (by simpa using here),
          List.filter_cons_of_pos (by simpa using here),noneC,none]
        rfl
      · rw [coalesce_keep slot merge same,List.filter_cons_of_neg (by simpa using here),
          List.filter_cons_of_neg (by simpa using here),filter_coalesce inj (n :: rest) (List.Pairwise.of_cons sorted) s]
termination_by l.length

end Slots

section RunFacts

variable {merge} {C : Type} {cls : κ → C} (keepsCls : ∀ n k, cls (merge n k) = cls n)
include keepsCls

theorem mergeRun_last {β : Type} {f : κ → β} (keepsF : ∀ n k, cls n = cls k → f (merge n k) = f n) (k : κ) (ks : List κ)
    (same : ∀ n ∈ ks, cls n = cls k) : f (mergeRun merge k ks) = f ((k :: ks).getLast (List.cons_ne_nil _ _)) := by
  induction ks generalizing k with
  | nil => rfl
  | cons n ks ih =>
    have nk := same n (by simp)
    rw [mergeRun_cons,ih (merge n k) (fun m member => by rw [keepsCls,same m (by simp [member]),nk])]
    cases ks with
    | nil => exact keepsF n k nk
    | cons m ks => simp

theorem mergeRun_min {g : κ → ℕ} (minimum : ∀ n k, cls n = cls k → g (merge n k) = min (g n) (g k)) (k : κ)
    (ks : List κ) (same : ∀ n ∈ ks, cls n = cls k) :
    (∀ x ∈ k :: ks, g (mergeRun merge k ks) ≤ g x) ∧ ∃ x ∈ k :: ks, g (mergeRun merge k ks) = g x := by
  induction ks generalizing k with
  | nil => exact ⟨by simp,k,by simp,rfl⟩
  | cons n ks ih =>
    have nk := same n (by simp)
    obtain ⟨least,reached⟩ := ih (merge n k) (fun m member => by rw [keepsCls,same m (by simp [member]),nk])
    have merged := minimum n k nk
    rw [mergeRun_cons]
    refine ⟨fun x member => ?_,?_⟩
    · rcases List.mem_cons.mp member with rfl | later
      · exact (least _ List.mem_cons_self).trans (by rw [merged]; exact min_le_right _ _)
      · rcases List.mem_cons.mp later with rfl | rest
        · exact (least _ List.mem_cons_self).trans (by rw [merged]; exact min_le_left _ _)
        · exact least x (List.mem_cons_of_mem _ rest)
    · obtain ⟨x,member,eq⟩ := reached
      rcases List.mem_cons.mp member with rfl | rest
      · rw [eq,merged]
        rcases min_choice (g n) (g k) with low | low
        · exact ⟨n,by simp,low⟩
        · exact ⟨k,by simp,low⟩
      · exact ⟨x,by simp [rest],eq⟩

theorem mergeRun_sum {M : Type} [AddCommMonoid M] {g : κ → M} (additive : ∀ n k, cls n = cls k → g (merge n k) = g n + g k)
    (k : κ) (ks : List κ) (same : ∀ n ∈ ks, cls n = cls k) : g (mergeRun merge k ks) = ((k :: ks).map g).sum := by
  induction ks generalizing k with
  | nil => simp
  | cons n ks ih =>
    have nk := same n (by simp)
    rw [mergeRun_cons,ih (merge n k) (fun m member => by rw [keepsCls,same m (by simp [member]),nk]),
      List.map_cons,List.sum_cons,additive n k nk]
    simp only [List.map_cons,List.sum_cons]
    abel

end RunFacts

section Runs

variable {slot merge} {C : Type} {cls : κ → C} {upd : κ → Option V → V}
variable (keepsCls : ∀ n k, cls (merge n k) = cls n)
  (compat : ∀ n k v, cls n = cls k → upd n (some (upd k v)) = upd (merge n k) v)
include keepsCls compat

theorem writeAt_mergeRun (k : κ) (ks : List κ) (same : ∀ n ∈ ks, cls n = cls k) (v : Option V) :
    writeAt upd v (k :: ks) = some (upd (mergeRun merge k ks) v) := by
  induction ks generalizing k v with
  | nil => rfl
  | cons n ks ih =>
    have nk := same n (by simp)
    rw [writeAt_cons,writeAt_cons,compat n k v nk,← writeAt_cons,
      ih (merge n k) (fun m member => by rw [keepsCls,same m (by simp [member]),nk]) v]
    rfl

theorem writeAt_runOf (l : List κ) (same : ∀ a ∈ l, ∀ b ∈ l, cls a = cls b) (v : Option V) :
    writeAt upd v (runOf merge l) = writeAt upd v l := by
  match l with
  | [] => rfl
  | k :: ks =>
    rw [writeAt_mergeRun keepsCls compat k ks (fun n member => same n (by simp [member]) k (by simp))]
    rfl

end Runs

section Store

variable {slot merge} {upd : κ → Option V → V} {β : Type} [LinearOrder β] {ord : σ → β}
  {C : Type} {cls : κ → C}

theorem foldl_write_coalesce (keeps : ∀ n k, slot (merge n k) = slot n) (keepsCls : ∀ n k, cls (merge n k) = cls n)
    (compat : ∀ n k v, cls n = cls k → upd n (some (upd k v)) = upd (merge n k) v)
    (inj : Function.Injective ord) (l : List κ) (sorted : l.Pairwise (fun a b => ord (slot a) ≤ ord (slot b)))
    (agree : ∀ a ∈ l, ∀ b ∈ l, slot a = slot b → cls a = cls b) (t : σ → Option V) :
    (coalesce slot merge l).foldl (write slot upd) t = l.foldl (write slot upd) t := by
  funext s
  rw [foldl_write_apply,foldl_write_apply,filter_coalesce keeps inj l sorted s]
  refine writeAt_runOf keepsCls compat _ (fun a aMember b bMember => ?_) _
  obtain ⟨aIn,aSlot⟩ := List.mem_filter.mp aMember
  obtain ⟨bIn,bSlot⟩ := List.mem_filter.mp bMember
  exact agree a aIn b bIn (by simp at aSlot bSlot; rw [aSlot,bSlot])

end Store

end Coalesce

end Coalesce
