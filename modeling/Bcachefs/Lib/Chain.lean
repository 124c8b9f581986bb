import Mathlib

namespace Chain

-- Walks along a relation in which every step climbs a rank: a parent map whose
-- parents sit above their children. Reachability is the reflexive-transitive
-- closure.
variable {α : Type} (rank : α → Nat) (r : α → α → Prop)

def Climbs : Prop := ∀ a b, r a b → rank a < rank b

variable {rank r}
open Relation

theorem reach_rank_le (climbs : Climbs rank r) {a b : α} (reach : ReflTransGen r a b) : rank a ≤ rank b := by
  induction reach with
  | refl => exact Nat.le_refl _
  | tail _ step ih => exact Nat.le_trans ih (Nat.le_of_lt (climbs _ _ step))

theorem reach_eq_of_rank_le (climbs : Climbs rank r) {a b : α} (reach : ReflTransGen r a b)
    (low : rank b ≤ rank a) : a = b := by
  cases reach.cases_head with
  | inl same => exact same
  | inr first =>
    obtain ⟨c,step,rest⟩ := first
    have := climbs _ _ step
    have := reach_rank_le climbs rest
    omega

theorem reach_between (climbs : Climbs rank r) (unique : Relator.RightUnique r) {a b c : α}
    (ab : ReflTransGen r a b) (ac : ReflTransGen r a c) (le : rank b ≤ rank c) : ReflTransGen r b c := by
  rcases ReflTransGen.total_of_right_unique unique ab ac with bc | cb
  · exact bc
  · rw [reach_eq_of_rank_le climbs cb le]

theorem reach_step_iff (unique : Relator.RightUnique r) {a b c : α} (step : r a b) :
    ReflTransGen r a c ↔ a = c ∨ ReflTransGen r b c := by
  constructor
  · intro reach
    rcases reach.cases_head with same | ⟨b',step',rest⟩
    · exact .inl same
    · exact .inr (unique step' step ▸ rest)
  · rintro (rfl | rest)
    · exact .refl
    · exact .head step rest

theorem reach_of_no_step {a c : α} (stuck : ∀ b, ¬ r a b) : ReflTransGen r a c ↔ a = c := by
  constructor
  · intro reach
    rcases reach.cases_head with same | ⟨b,step,_⟩
    · exact same
    · exact (stuck b step).elim
  · rintro rfl
    exact .refl

theorem reach_congr (climbs : Climbs rank r) {r' : α → α → Prop} {a b : α}
    (agree : ∀ x y, rank a ≤ rank x → (r x y ↔ r' x y)) (reach : ReflTransGen r a b) : ReflTransGen r' a b := by
  induction reach with
  | refl => exact .refl
  | tail before step ih => exact .tail ih ((agree _ _ (reach_rank_le climbs before)).mp step)

end Chain
