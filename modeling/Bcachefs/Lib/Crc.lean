import Mathlib.Logic.Function.Iterate
import Mathlib.Data.List.Basic

namespace Crc

-- Registers and bytes are words under exclusive or, with the laws the core word
-- types carry: associative, commutative, with a zero.
section Words

variable {α σ β : Type} [XorOp α] [XorOp σ] [XorOp β]

-- A map that distributes over exclusive or, as every shift of a register does.
def Additive (f : α → σ) : Prop := ∀ a b, f (a ^^^ b) = f a ^^^ f b

theorem Additive.comp {f : σ → β} {g : α → σ} (outer : Additive f) (inner : Additive g) :
    Additive (f ∘ g) := by
  intro a b
  simp only [Function.comp_apply,inner a b,outer (g a) (g b)]

theorem Additive.iterate {f : σ → σ} (additive : Additive f) : ∀ n, Additive f^[n]
  | 0 => fun _ _ => rfl
  | n+1 => by
    intro a b
    simp only [Function.iterate_succ_apply,additive a b,additive.iterate n (f a) (f b)]

-- One bit of a CRC register: shift it, and add the polynomial where the bit shifted
-- out was set.
def shiftStep (shift : σ → σ) (out : σ → Bool) (poly : σ) (c : σ) : σ :=
  if out c then shift c ^^^ poly else shift c

-- A register update of a byte that is linear in the register and the byte together.
def Linear (step : σ → β → σ) : Prop :=
  ∀ c c' b b', step (c ^^^ c') (b ^^^ b') = step c b ^^^ step c' b'

section Laws

variable [Std.Associative (fun a b : σ => a ^^^ b)] [Std.Commutative (fun a b : σ => a ^^^ b)]

theorem shiftStep_additive {e : σ} [Std.LawfulRightIdentity (fun a b : σ => a ^^^ b) e]
    {shift : σ → σ} {out : σ → Bool} {poly : σ} (shifted : Additive shift)
    (outXor : ∀ a b, out (a ^^^ b) = (out a ^^ out b)) (cancel : poly ^^^ poly = e) :
    Additive (shiftStep shift out poly) := by
  intro a b
  unfold shiftStep
  rw [outXor,shifted]
  -- the polynomial is added once when exactly one of the two bits was set, and
  -- cancels when both were
  cases out a <;> cases out b <;> simp only [Bool.false_xor,Bool.xor_false,Bool.xor_self,Bool.false_eq_true,↓reduceIte]
  · ac_rfl
  · ac_rfl
  · calc shift a ^^^ shift b = (shift a ^^^ shift b) ^^^ e := (Std.LawfulRightIdentity.right_id _).symm
      _ = (shift a ^^^ shift b) ^^^ (poly ^^^ poly) := by rw [cancel]
      _ = (shift a ^^^ poly) ^^^ (shift b ^^^ poly) := by ac_rfl

-- A table-driven update: the table's word for the register's input end mixed with
-- the byte, added to the rest of the register moved along. It is linear when the
-- table is, as a table of shifted indexes is.
theorem linear_of_table {entry : σ → σ} {rest inputEnd : σ → σ} {widen : β → σ}
    (entryAdd : Additive entry) (restAdd : Additive rest) (endAdd : Additive inputEnd)
    (widenAdd : Additive widen) :
    Linear (fun c b => entry (inputEnd c ^^^ widen b) ^^^ rest c) := by
  intro c c' b b'
  have mixed : inputEnd (c ^^^ c') ^^^ widen (b ^^^ b') =
      (inputEnd c ^^^ widen b) ^^^ (inputEnd c' ^^^ widen b') := by
    rw [endAdd,widenAdd]
    ac_rfl
  simp only [mixed,entryAdd _ _,restAdd c c']
  ac_rfl

end Laws

variable {step : σ → β → σ}

theorem Linear.foldl_zipWith (linear : Linear step) :
    ∀ (xs ys : List β) (c c' : σ), xs.length = ys.length →
      (List.zipWith (· ^^^ ·) xs ys).foldl step (c ^^^ c') = xs.foldl step c ^^^ ys.foldl step c'
  | [],[],_,_,_ => rfl
  | x :: xs,y :: ys,c,c',same => by
    rw [List.zipWith_cons_cons,List.foldl_cons,linear]
    exact linear.foldl_zipWith xs ys _ _ (by simpa using same)
  | [],_ :: _,_,_,same | _ :: _,[],_,_,same => by simp at same

theorem zipWith_replicate_xor {z : β} [Std.LawfulLeftIdentity (fun a b : β => a ^^^ b) z] :
    ∀ data : List β, List.zipWith (· ^^^ ·) (List.replicate data.length z) data = data
  | [] => rfl
  | b :: data => by
    rw [List.length_cons,List.replicate_succ,List.zipWith_cons_cons,zipWith_replicate_xor data]
    exact congrArg (· :: data) (Std.LawfulLeftIdentity.left_id b)

theorem Linear.foldl_zeros_xor {e : σ} {z : β} [Std.LawfulRightIdentity (fun a b : σ => a ^^^ b) e]
    [Std.LawfulLeftIdentity (fun a b : β => a ^^^ b) z] (linear : Linear step) (seed : σ) (data : List β) :
    (List.replicate data.length z).foldl step seed ^^^ data.foldl step e = data.foldl step seed := by
  have summed := linear.foldl_zipWith (List.replicate data.length z) data seed e List.length_replicate
  have unchanged : seed ^^^ e = seed := Std.LawfulRightIdentity.right_id seed
  rw [zipWith_replicate_xor,unchanged] at summed
  exact summed.symm

end Words

end Crc
