import Mathlib

namespace Loop

-- One step of a loop: go on from a new state, stop with a result, or fail.
inductive Step (σ ρ ε : Type) where
  | next (s : σ)
  | done (r : ρ)
  | fail (e : ε)
  deriving DecidableEq, Repr

variable {σ ρ ε : Type}

-- At most `fuel` steps of `step` from `s`; none when the fuel runs out first.
def run (step : σ → Step σ ρ ε) : Nat → σ → Option (Except ε ρ)
  | 0, _ => none
  | fuel+1, s =>
    match step s with
    | .next s' => run step fuel s'
    | .done r => some (.ok r)
    | .fail e => some (.error e)

variable {step : σ → Step σ ρ ε}

theorem run_next {s s' : σ} (stepped : step s = .next s') (fuel : Nat) : run step (fuel+1) s = run step fuel s' := by
  simp [run,stepped]

theorem run_done {s : σ} {r : ρ} (stepped : step s = .done r) (fuel : Nat) : run step (fuel+1) s = some (.ok r) := by
  simp [run,stepped]

theorem bind_eq_ok {α β : Type} {x : Except ε α} {f : α → Except ε β} {b : β} (ok : (x >>= f) = .ok b) :
    ∃ a, x = .ok a ∧ f a = .ok b := by
  cases x with
  | error e => cases ok
  | ok a => exact ⟨a,rfl,ok⟩

theorem ok_bind {α β : Type} (a : α) (f : α → Except ε β) : (Except.ok a >>= f) = f a := rfl

theorem error_bind {α β : Type} (e : ε) (f : α → Except ε β) : (Except.error e >>= f) = .error e := rfl

-- Two computations that may fail agree: they fail with the same error, or both
-- succeed with related values.
def ExceptRel {α β : Type} (R : α → β → Prop) : Except ε α → Except ε β → Prop
  | .ok x, .ok y => R x y
  | .error e, .error e' => e = e'
  | _, _ => False

theorem ExceptRel.map_unit {α β : Type} {R : α → β → Prop} {x : Except ε α} {y : Except ε β}
    (agree : ExceptRel R x y) : x.map (fun _ => ()) = y.map (fun _ => ()) := by
  cases x <;> cases y <;> simp_all [ExceptRel,Except.map]

theorem ExceptRel.mono {α β : Type} {R S : α → β → Prop} {x : Except ε α} {y : Except ε β}
    (agree : ExceptRel R x y) (weaker : ∀ a b, R a b → S a b) : ExceptRel S x y := by
  cases x <;> cases y <;> simp_all [ExceptRel]

theorem ExceptRel.getD {α β : Type} {R : α → β → Prop} {x : Except ε α} {y : Except ε β} {a : α} {b : β}
    (agree : ExceptRel R x y) (old : R a b) : R (x.toOption.getD a) (y.toOption.getD b) := by
  cases x <;> cases y <;> simp_all [ExceptRel,Except.toOption]

theorem run_mono {fuel : Nat} {s : σ} {out : Except ε ρ} (stopped : run step fuel s = some out) :
    ∀ more, fuel ≤ more → run step more s = some out := by
  induction fuel generalizing s with
  | zero => simp [run] at stopped
  | succ fuel ih =>
    intro more enough
    obtain ⟨more,rfl⟩ : ∃ m, more = m + 1 := ⟨more - 1,by omega⟩
    unfold run at stopped ⊢
    cases stepped : step s with
    | next s' =>
      rw [stepped] at stopped
      exact ih stopped more (by omega)
    | done r =>
      rw [stepped] at stopped
      exact stopped
    | fail e =>
      rw [stepped] at stopped
      exact stopped

-- The loop rule: an invariant that each step keeps while a measure drops, and
-- that makes every stop satisfy `Post` and no step fail, gives a result within
-- one more step than the measure.
theorem run_of_variant (measure : σ → Nat) (Inv : σ → Prop) (Post : ρ → Prop)
    (preserve : ∀ s, Inv s → match step s with
      | .next s' => Inv s' ∧ measure s' < measure s
      | .done r => Post r
      | .fail _ => False) :
    ∀ s, Inv s → ∀ fuel, measure s < fuel → ∃ r, run step fuel s = some (.ok r) ∧ Post r := by
  intro s inv fuel
  induction fuel generalizing s with
  | zero => intro short; omega
  | succ fuel ih =>
    intro enough
    have kept := preserve s inv
    cases stepped : step s with
    | next s' =>
      rw [stepped] at kept
      rw [run_next stepped]
      exact ih s' kept.1 (by omega)
    | done r =>
      rw [stepped] at kept
      exact ⟨r,run_done stepped fuel,kept⟩
    | fail e =>
      rw [stepped] at kept
      exact kept.elim

end Loop
