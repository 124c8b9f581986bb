import Mathlib
import Bcachefs.Lib.Eytzinger

namespace Bcachefs

open Eytzinger

-- A NULL-terminated const char * const list[] is the names before its NULL. The two
-- printers are modelled by the strings they pass to bch2_prt_printf, one per call.

-- The "," before every name but the first, as both loops print it with `first`.
def prtNames : Bool → List String → List String
  | _,[] => []
  | first,s :: rest => (if first then [] else [","]) ++ s :: prtNames false rest

-- The loop of bch2_prt_bitflags: while flags is nonzero and its lowest set bit is below
-- nr, print that bit's name and clear it. A u64 has at most 64 set bits.
def prtBitflagsLoop (list : List String) (nr : Nat) : Nat → Nat → Bool → List String
  | 0,_,_ => []
  | fuel + 1,flags,first =>
    if flags ≠ 0 ∧ ffs flags < nr then
      (if first then [] else [","]) ++ list.getD (ffs flags) "" :: prtBitflagsLoop list nr fuel (flags ^^^ 2 ^ ffs flags) false
    else []

-- bch2_prt_bitflags(out, list, flags): nr counts the names up to the NULL.
def bch2PrtBitflags (list : List String) (flags : UInt64) : List String :=
  prtBitflagsLoop list list.length 64 flags.toNat true

-- The first loop of bch2_prt_bitflags_vector: at a NULL below nr, nr = i - 1 in
-- unsigned arithmetic.
def bitflagsVectorNr (list : List String) (nr : UInt32) : Nat :=
  if list.length < nr.toNat then (list.length + (2 ^ 32 - 1)) % 2 ^ 32 else nr.toNat

-- bch2_prt_bitflags_vector(out, list, v, nr): for_each_set_bit over the first nr bits
-- of the bitmap v. none when it reads list at or past its NULL.
def bch2PrtBitflagsVector (list : List String) (v : Nat) (nr : UInt32) : Option (List String) :=
  (((List.range (bitflagsVectorNr list nr)).filter v.testBit).mapM fun i => list[i]?).map (prtNames true)

-- What both printers are for: the names of the set bits below n, in order.
def bitflagNames (list : List String) (bits : Nat → Bool) (n : Nat) : List String :=
  ((List.range n).filter bits).map (list.getD · "")

section Lowest

theorem prtNames_true (l : List String) : prtNames true l = l.intersperse "," := by
  match l with
  | [] => rfl
  | [s] => rfl
  | s :: t :: rest =>
    have tail : prtNames false (t :: rest) = "," :: prtNames true (t :: rest) := by
      rw [prtNames,prtNames]
      rfl
    rw [prtNames,tail,prtNames_true (t :: rest),List.intersperse_cons_cons]
    rfl

theorem testBit_ffs {flags : Nat} (nonzero : flags ≠ 0) (j : Nat) :
    flags.testBit j = if j < ffs flags then false else (2 * (flags / 2 ^ (ffs flags + 1)) + 1).testBit (j - ffs flags) := by
  have whole := odd_mul_ffs (Nat.pos_of_ne_zero nonzero)
  have bits := Nat.testBit_two_pow_mul_add (2 * (flags / 2 ^ (ffs flags + 1)) + 1) (Nat.two_pow_pos (ffs flags)) j
  rwa [Nat.add_zero,Nat.mul_comm,whole,Nat.zero_testBit] at bits

theorem testBit_ffs_self {flags : Nat} (nonzero : flags ≠ 0) : flags.testBit (ffs flags) = true := by
  rw [testBit_ffs nonzero,if_neg (Nat.lt_irrefl _),Nat.sub_self,Nat.testBit_zero]
  simp

theorem ffs_le_of_testBit {flags j : Nat} (nonzero : flags ≠ 0) (set : flags.testBit j = true) : ffs flags ≤ j := by
  rw [testBit_ffs nonzero] at set
  by_contra below
  rw [if_pos (Nat.lt_of_not_le below)] at set
  exact Bool.false_ne_true set

theorem filter_testBit_ffs {flags : Nat} (nonzero : flags ≠ 0) (n : Nat) :
    (List.range n).filter flags.testBit =
      if ffs flags < n then ffs flags :: (List.range n).filter (flags ^^^ 2 ^ ffs flags).testBit else [] := by
  have cleared : ∀ j, (flags ^^^ 2 ^ ffs flags).testBit j = (decide (j ≠ ffs flags) && flags.testBit j) := by
    intro j
    rw [Nat.testBit_xor,Nat.testBit_two_pow]
    by_cases here : j = ffs flags
    · subst here
      simp [testBit_ffs_self nonzero]
    · simp [Ne.symm here,here]
  have above : ∀ j, flags.testBit j = true → ffs flags ≤ j := fun j set => ffs_le_of_testBit nonzero set
  by_cases inside : ffs flags < n
  · rw [if_pos inside]
    apply List.Pairwise.eq_of_mem_iff (r := (· < ·)) (List.pairwise_lt_range.filter _)
    · refine List.Pairwise.cons (fun j member => ?_) (List.pairwise_lt_range.filter _)
      obtain ⟨_,set⟩ := List.mem_filter.mp member
      rw [cleared] at set
      simp only [Bool.and_eq_true,decide_eq_true_eq] at set
      exact lt_of_le_of_ne (above j set.2) (Ne.symm set.1)
    · intro j
      simp only [List.mem_filter,List.mem_range,List.mem_cons,cleared,Bool.and_eq_true,decide_eq_true_eq]
      constructor
      · rintro ⟨jIn,set⟩
        by_cases here : j = ffs flags
        · exact .inl here
        · exact .inr ⟨jIn,here,set⟩
      · rintro (rfl | ⟨jIn,_,set⟩)
        · exact ⟨inside,testBit_ffs_self nonzero⟩
        · exact ⟨jIn,set⟩
  · rw [if_neg inside,List.filter_eq_nil_iff]
    intro j member set
    have := above j set
    have := List.mem_range.mp member
    omega

end Lowest

section Print

variable (list : List String)

theorem bitflagNames_zero (n : Nat) : bitflagNames list (Nat.testBit 0) n = [] := by
  simp [bitflagNames]

-- Each round prints the lowest set bit, so after fuel rounds from a word of w bits the
-- bits left are all at least w - fuel.
theorem prtBitflagsLoop_eq (nr w : Nat) (fuel : Nat) : ∀ flags first, flags < 2 ^ w →
    (∀ j, flags.testBit j = true → w - fuel ≤ j) →
    prtBitflagsLoop list nr fuel flags first = prtNames first (bitflagNames list flags.testBit nr) := by
  induction fuel with
  | zero =>
    intro flags first bounded above
    -- no bit is left below w, nor at or above it
    have empty : flags = 0 := Nat.eq_of_testBit_eq fun j => by
      rw [Nat.zero_testBit]
      by_contra set
      have := above j (Bool.not_eq_false _ ▸ set)
      exact set (Nat.testBit_eq_false_of_lt (lt_of_lt_of_le bounded (Nat.pow_le_pow_right (by decide) (by omega))))
    rw [empty,bitflagNames_zero,prtBitflagsLoop,prtNames]
  | succ fuel ih =>
    intro flags first bounded above
    by_cases zero : flags = 0
    · rw [zero,bitflagNames_zero,prtBitflagsLoop,if_neg (fun go => go.1 rfl),prtNames]
    have names := filter_testBit_ffs zero nr
    by_cases inside : ffs flags < nr
    · rw [if_pos inside] at names
      have cleared : ∀ j, (flags ^^^ 2 ^ ffs flags).testBit j = (decide (j ≠ ffs flags) && flags.testBit j) := by
        intro j
        rw [Nat.testBit_xor,Nat.testBit_two_pow]
        by_cases here : j = ffs flags
        · subst here
          simp [testBit_ffs_self zero]
        · simp [Ne.symm here,here]
      have rest := ih (flags ^^^ 2 ^ ffs flags) false
        (Nat.lt_pow_two_of_testBit _ fun j far => by
          rw [cleared,Nat.testBit_eq_false_of_lt (lt_of_lt_of_le bounded (Nat.pow_le_pow_right (by decide) far))]
          simp)
        (fun j set => by
          rw [cleared] at set
          simp only [Bool.and_eq_true,decide_eq_true_eq] at set
          have := above j set.2
          have := ffs_le_of_testBit zero set.2
          have := above _ (testBit_ffs_self zero)
          omega)
      rw [prtBitflagsLoop,if_pos ⟨zero,inside⟩,rest]
      unfold bitflagNames
      rw [names,List.map_cons,prtNames]
    · rw [if_neg inside] at names
      rw [prtBitflagsLoop,if_neg (fun go => inside go.2)]
      unfold bitflagNames
      rw [names,List.map_nil,prtNames]

theorem bch2PrtBitflags_eq (flags : UInt64) :
    bch2PrtBitflags list flags = (bitflagNames list flags.toNat.testBit list.length).intersperse "," := by
  rw [bch2PrtBitflags,prtBitflagsLoop_eq list list.length 64 64 flags.toNat true flags.toNat_lt (fun _ _ => by omega),
    prtNames_true]

theorem mapM_getElem? {is : List Nat} (inside : ∀ i ∈ is, i < list.length) :
    is.mapM (fun i => list[i]?) = some (is.map (list.getD · "")) := by
  induction is with
  | nil => rfl
  | cons i is ih =>
    have iIn := inside i (by simp)
    rw [List.mapM_cons,List.getElem?_eq_getElem iIn,ih fun j member => inside j (by simp [member])]
    simp [List.getElem?_eq_getElem iIn]

theorem bch2PrtBitflagsVector_eq (named : 0 < list.length) (v : Nat) (nr : UInt32) :
    bch2PrtBitflagsVector list v nr =
      some ((bitflagNames list v.testBit (if list.length < nr.toNat then list.length - 1 else nr.toNat)).intersperse ",") := by
  have cut : bitflagsVectorNr list nr = if list.length < nr.toNat then list.length - 1 else nr.toNat := by
    unfold bitflagsVectorNr
    split_ifs with shorter
    · have := nr.toNat_lt
      omega
    · rfl
  have inside : ∀ i ∈ (List.range (bitflagsVectorNr list nr)).filter v.testBit, i < list.length := by
    intro i member
    have := List.mem_range.mp (List.mem_filter.mp member).1
    rw [cut] at this
    split_ifs at this <;> omega
  rw [bch2PrtBitflagsVector,mapM_getElem? list inside,Option.map_some,prtNames_true,cut]
  rfl

-- With no names, nr wraps to UINT_MAX and any set bit below it reads list[i] past the NULL.
theorem bch2PrtBitflagsVector_empty (v : Nat) {nr : UInt32} (positive : 0 < nr.toNat) :
    bch2PrtBitflagsVector [] v nr = none ↔ ∃ i, i < 2 ^ 32 - 1 ∧ v.testBit i = true := by
  have cut : bitflagsVectorNr [] nr = 2 ^ 32 - 1 := by
    rw [bitflagsVectorNr,if_pos (show [].length < nr.toNat from positive)]
    rfl
  rw [bch2PrtBitflagsVector,cut]
  cases found : (List.range (2 ^ 32 - 1)).filter v.testBit with
  | nil =>
    rw [List.filter_eq_nil_iff] at found
    constructor
    · intro printed
      cases printed
    · rintro ⟨i,below,set⟩
      exact absurd set (found i (List.mem_range.mpr below))
  | cons i is =>
    have member : i ∈ (List.range (2 ^ 32 - 1)).filter v.testBit := by
      rw [found]
      exact List.mem_cons_self
    obtain ⟨below,set⟩ := List.mem_filter.mp member
    rw [List.mapM_cons]
    simp only [List.getElem?_nil,Option.bind_eq_bind,Option.bind_none,Option.map_none,true_iff]
    exact ⟨i,List.mem_range.mp below,set⟩

end Print

theorem prt_bitflags_prints_set_names :
    (∀ (list : List String) (flags : UInt64),
      bch2PrtBitflags list flags = (bitflagNames list flags.toNat.testBit list.length).intersperse ",") ∧
    (∀ (list : List String) (v : Nat) (nr : UInt32), 0 < list.length →
      bch2PrtBitflagsVector list v nr =
        some ((bitflagNames list v.testBit (if list.length < nr.toNat then list.length - 1 else nr.toNat)).intersperse ",")) ∧
    (∀ (v : Nat) (nr : UInt32), 0 < nr.toNat →
      (bch2PrtBitflagsVector [] v nr = none ↔ ∃ i, i < 2 ^ 32 - 1 ∧ v.testBit i = true)) :=
  ⟨bch2PrtBitflags_eq,fun list v nr named => bch2PrtBitflagsVector_eq list named v nr,
    fun v _ positive => bch2PrtBitflagsVector_empty v positive⟩

-- Names "a", "b", bit 1 set, nr = 3: the scalar printer prints "b", the vector one
-- cuts nr to 1 at the NULL and prints nothing.
theorem prt_bitflags_vector_drops_last_name :
    bch2PrtBitflags ["a","b"] 2 = ["b"] ∧ bch2PrtBitflagsVector ["a","b"] 2 3 = some [] ∧
      (bitflagNames ["a","b"] (Nat.testBit 2) (min 3 2)).intersperse "," = ["b"] := by
  obtain ⟨scalar,vector,_⟩ := prt_bitflags_prints_set_names
  refine ⟨(scalar ["a","b"] 2).trans (by decide),(vector ["a","b"] 2 3 (by decide)).trans (by decide),by decide⟩

end Bcachefs
