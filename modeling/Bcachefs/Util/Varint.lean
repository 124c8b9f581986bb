import Bcachefs.Bkey.Pack
import Bcachefs.Lib.Bytes
import Bcachefs.Lib.Eytzinger

namespace Bcachefs
open Bytes

-- ffz of a byte widened to unsigned long: the index of its lowest clear bit, 8 when
-- all eight bits are set.
def ffz (x : UInt8) : Nat := Eytzinger.ffs (~~~x.toUInt64).toNat

-- DIV_ROUND_UP(fls64(v|1), 7): the length both encoders give v, before the cap.
def varintBytes (v : UInt64) : Nat := (fls64 (v ||| 1) + 7 - 1) / 7

-- v << bytes | ~(~0U << (bytes - 1)): the value above its length in unary. In
-- bch2_varint_encode the ~0 is an int; for shifts below 31 its mask is the same
-- nonnegative word.
def varintWord (v : UInt64) (bytes : Nat) : UInt64 :=
  (v <<< bytes.toUInt64) ||| (~~~((~~~0 : UInt32) <<< (bytes - 1).toUInt32)).toUInt64

-- bch2_varint_encode: the bytes it stores at out, and the length it returns.
def bch2VarintEncode (v : UInt64) : List UInt8 × Nat :=
  let bytes := varintBytes v
  if bytes < 9 then ((leBytes 8 (varintWord v bytes).toNat).take bytes,bytes)
  else (255 :: leBytes 8 v.toNat,9)

-- bch2_varint_encode_fast: the whole word is stored, of which the length's bytes count.
def bch2VarintEncodeFast (v : UInt64) : List UInt8 × Nat :=
  let bytes := varintBytes v
  if bytes < 9 then (leBytes 8 (varintWord v bytes).toNat,bytes)
  else (255 :: leBytes 8 v.toNat,9)

-- bch2_varint_decode on the bytes of mem from inp up to bufEnd: the value and the
-- length read; none is -BCH_ERR_varint_decode_error.
def bch2VarintDecode (mem : List UInt8) (inp bufEnd : Nat) : Option (UInt64 × Nat) :=
  let bytes := if inp < bufEnd then ffz (mem.getD inp 0) + 1 else 1
  if inp + bytes > bufEnd then none
  else if bytes < 9 then some ((loadLE mem inp bytes).toUInt64 >>> bytes.toUInt64,bytes)
  else some ((loadLE mem (inp + 1) 8).toUInt64,bytes)

-- bch2_varint_decode_fast: eight bytes are loaded at inp whatever bufEnd is, and the
-- value is masked out of them. Memory past the end of mem reads as zero.
def bch2VarintDecodeFast (mem : List UInt8) (inp bufEnd : Nat) : Option (UInt64 × Nat) :=
  let v := (loadLE mem inp 8).toUInt64
  let bytes := ffz (mem.getD inp 0) + 1
  if inp + bytes > bufEnd then none
  else if bytes < 9 then some ((v >>> bytes.toUInt64) &&& ~~~((~~~0 : UInt64) <<< (7 * bytes).toUInt64),bytes)
  else some ((loadLE mem (inp + 1) 8).toUInt64,bytes)

section Words

theorem ffz_eq {x : UInt8} {k : Nat} (le : k ≤ 8) (low : x.toNat % 2 ^ (k + 1) = 2 ^ k - 1) : ffz x = k := by
  have byte := x.toNat_lt
  -- ~x is an odd number times 2 ^ k: its k low bits are the k set bits of x.
  have odd : 2 ^ 64 - 1 - x.toNat = (2 * (2 ^ (63 - k) - x.toNat / 2 ^ (k + 1) - 1) + 1) * 2 ^ k := by
    interval_cases k <;> omega
  unfold ffz
  rw [UInt64.toNat_not,UInt8.toNat_toUInt64]
  exact (congrArg Eytzinger.ffs odd).trans (Eytzinger.ffs_odd_mul _ k)

theorem toNat_lowOnes {b : Nat} (le : b ≤ 8) :
    (~~~((~~~0 : UInt32) <<< b.toUInt32)).toUInt64.toNat = 2 ^ b - 1 := by
  interval_cases b <;> decide

theorem toNat_lowMask {b : Nat} (le : b ≤ 8) : (~~~((~~~0 : UInt64) <<< (7 * b).toUInt64)).toNat = 2 ^ (7 * b) - 1 := by
  interval_cases b <;> decide

theorem toNat_toUInt64_of_lt {n : Nat} (lt : n < 2 ^ 64) : n.toUInt64.toNat = n := by
  rw [Nat.toUInt64_eq,UInt64.toNat_ofNat',Nat.mod_eq_of_lt lt]

theorem toNat_varintWord {v : UInt64} {b : Nat} (pos : 1 ≤ b) (le : b ≤ 8) (fits : v.toNat < 2 ^ (7 * b)) :
    (varintWord v b).toNat = 2 ^ b * v.toNat + (2 ^ (b - 1) - 1) := by
  have room : 2 ^ b * v.toNat < 2 ^ 64 := calc
    2 ^ b * v.toNat < 2 ^ b * 2 ^ (7 * b) := Nat.mul_lt_mul_of_pos_left fits (Nat.two_pow_pos b)
    _ = 2 ^ (8 * b) := by rw [← Nat.pow_add]; ring_nf
    _ ≤ 2 ^ 64 := Nat.pow_le_pow_right (by decide) (by omega)
  have ones : 2 ^ (b - 1) - 1 < 2 ^ b := by
    have : 2 ^ (b - 1) ≤ 2 ^ b := Nat.pow_le_pow_right (by decide) (by omega)
    have := Nat.one_le_two_pow (n := b - 1)
    omega
  unfold varintWord
  rw [UInt64.toNat_or,UInt64.toNat_shiftLeft,toNat_lowOnes (by omega),toNat_toUInt64_of_lt (by omega),
    Nat.mod_eq_of_lt (by omega : b < 64),Nat.shiftLeft_eq,Nat.mul_comm,Nat.mod_eq_of_lt room,
    Nat.two_pow_add_eq_or_of_lt ones]

theorem varintWord_lt {v : UInt64} {b : Nat} (pos : 1 ≤ b) (le : b ≤ 8) (fits : v.toNat < 2 ^ (7 * b)) :
    (varintWord v b).toNat < 256 ^ b := by
  have split : 2 ^ (8 * b) = 2 ^ b * 2 ^ (7 * b) := by rw [← Nat.pow_add]; ring_nf
  have low : 2 ^ (b - 1) ≤ 2 ^ b := Nat.pow_le_pow_right (by decide) (by omega)
  have step : 2 ^ b * (v.toNat + 1) ≤ 2 ^ b * 2 ^ (7 * b) := Nat.mul_le_mul_left _ fits
  have positive := Nat.two_pow_pos b
  rw [Nat.mul_succ] at step
  rw [toNat_varintWord pos le fits,pow_256,split]
  omega

theorem varintWord_low {v : UInt64} {b : Nat} (pos : 1 ≤ b) (le : b ≤ 8) (fits : v.toNat < 2 ^ (7 * b)) :
    (varintWord v b).toNat % 256 % 2 ^ b = 2 ^ (b - 1) - 1 := by
  have dvd : 2 ^ b ∣ 256 := (Nat.pow_dvd_pow 2 le).trans (by decide)
  have ones : 2 ^ (b - 1) - 1 < 2 ^ b := by
    have : 2 ^ (b - 1) ≤ 2 ^ b := Nat.pow_le_pow_right (by decide) (by omega)
    have := Nat.one_le_two_pow (n := b - 1)
    omega
  rw [Nat.mod_mod_of_dvd _ dvd,toNat_varintWord pos le fits,Nat.mul_add_mod,Nat.mod_eq_of_lt ones]

theorem toNat_or_one (v : UInt64) : (v ||| 1).toNat = v.toNat ||| 1 := by
  rw [UInt64.toNat_or]
  rfl

theorem fls64_or_one (v : UInt64) : fls64 (v ||| 1) = max 1 (fls64 v) := by
  -- Both sides are the least b whose power bounds the value: compare every bound.
  have bound : ∀ b, fls64 (v ||| 1) ≤ b ↔ max 1 (fls64 v) ≤ b := by
    intro b
    rw [fls64_le_iff,Nat.max_le,fls64_le_iff,toNat_or_one]
    constructor
    · intro lt
      have pos : 1 ≤ b := by
        rcases Nat.eq_zero_or_pos b with zero | pos
        · subst zero
          simp at lt
        · exact pos
      exact ⟨pos,Nat.lt_of_le_of_lt Nat.left_le_or lt⟩
    · rintro ⟨pos,lt⟩
      exact Nat.or_lt_two_pow lt (Nat.one_lt_two_pow (by omega))
  exact Nat.le_antisymm ((bound _).mpr le_rfl) ((bound _).mp le_rfl)

theorem varintBytes_pos (v : UInt64) : 1 ≤ varintBytes v := by
  unfold varintBytes
  rw [fls64_or_one]
  omega

theorem varintBytes_fits (v : UInt64) : v.toNat < 2 ^ (7 * varintBytes v) := by
  have within : fls64 (v ||| 1) ≤ 7 * varintBytes v := by
    unfold varintBytes
    omega
  rw [fls64_le_iff,toNat_or_one] at within
  exact Nat.lt_of_le_of_lt Nat.left_le_or within

end Words

section Decode

theorem loadLE_append (pre rest : List UInt8) (w : Nat) : loadLE (pre ++ rest) pre.length w = ofLE (rest.take w) := by
  rw [loadLE,List.drop_left]

theorem encodeFast_cases (v : UInt64) :
    (varintBytes v < 9 ∧ bch2VarintEncodeFast v = (leBytes 8 (varintWord v (varintBytes v)).toNat,varintBytes v)) ∨
    (9 ≤ varintBytes v ∧ bch2VarintEncodeFast v = (255 :: leBytes 8 v.toNat,9)) := by
  by_cases short : varintBytes v < 9
  · exact .inl ⟨short,if_pos short⟩
  · exact .inr ⟨by omega,if_neg short⟩

theorem ffz_encodeFast (v : UInt64) :
    ffz ((bch2VarintEncodeFast v).1.headD 0) + 1 = (bch2VarintEncodeFast v).2 := by
  have pos := varintBytes_pos v
  rcases encodeFast_cases v with ⟨short,enc⟩ | ⟨-,enc⟩
  · have low := varintWord_low pos (by omega) (varintBytes_fits v)
    have toNat : ((varintWord v (varintBytes v)).toNat % 256).toUInt8.toNat = (varintWord v (varintBytes v)).toNat % 256 := by
      rw [Nat.toUInt8_eq,UInt8.toNat_ofNat',Nat.mod_mod_of_dvd _ (by decide)]
    rw [enc,leBytes,List.headD_cons,ffz_eq (k := varintBytes v - 1) (by omega)]
    · omega
    · rw [toNat,Nat.sub_add_cancel pos,low]
  · rw [enc,List.headD_cons,ffz_eq (k := 8) le_rfl (by decide)]

theorem bch2VarintDecodeFast_encodeFast (v : UInt64) (pre post : List UInt8) {bufEnd : Nat}
    (room : pre.length + (bch2VarintEncodeFast v).2 ≤ bufEnd) :
    bch2VarintDecodeFast (pre ++ (bch2VarintEncodeFast v).1.take (bch2VarintEncodeFast v).2 ++ post) pre.length bufEnd =
      some (v,(bch2VarintEncodeFast v).2) := by
  have pos := varintBytes_pos v
  have announced : ffz ((pre ++ (bch2VarintEncodeFast v).1.take (bch2VarintEncodeFast v).2 ++ post).getD pre.length 0) + 1 =
      (bch2VarintEncodeFast v).2 := by
    rw [← ffz_encodeFast v]
    rcases encodeFast_cases v with ⟨-,enc⟩ | ⟨-,enc⟩
    · obtain ⟨k,hk⟩ : ∃ k, varintBytes v = k + 1 := ⟨varintBytes v - 1,by omega⟩
      rw [enc,hk,leBytes,List.take_succ_cons,List.headD_cons,List.append_assoc,List.cons_append,getD_append_cons]
    · rw [enc,List.take_succ_cons,List.headD_cons,List.append_assoc,List.cons_append,getD_append_cons]
  unfold bch2VarintDecodeFast
  dsimp only
  rw [announced,if_neg (by omega),List.append_assoc,loadLE_append]
  rcases encodeFast_cases v with ⟨short,enc⟩ | ⟨-,enc⟩
  · -- Below nine bytes: the low bytes of the load are the stored word, above them
    -- whatever follows, and the mask drops it.
    have fits := varintBytes_fits v
    have wordLt := varintWord_lt pos (by omega) fits
    rw [enc]
    dsimp only
    rw [if_pos short]
    generalize varintBytes v = b at short fits wordLt pos
    have stored : ofLE (((leBytes 8 (varintWord v b).toNat).take b ++ post).take 8) % 256 ^ b = (varintWord v b).toNat := by
      rw [← ofLE_take,List.take_take,Nat.min_eq_left (by omega),List.take_append_of_le_length (by simp [length_leBytes]; omega),
        List.take_take,Nat.min_self,take_leBytes (by omega),ofLE_leBytes,Nat.mod_eq_of_lt wordLt]
    have loadLt : ofLE (((leBytes 8 (varintWord v b).toNat).take b ++ post).take 8) < 2 ^ 64 := by
      have := ofLE_lt (((leBytes 8 (varintWord v b).toNat).take b ++ post).take 8)
      have short : (256 : Nat) ^ (((leBytes 8 (varintWord v b).toNat).take b ++ post).take 8).length ≤ 256 ^ 8 :=
        Nat.pow_le_pow_right (by decide) (by simp)
      omega
    congr 2
    apply UInt64.toNat_inj.mp
    rw [UInt64.toNat_and,UInt64.toNat_shiftRight,toNat_lowMask (by omega),Nat.and_two_pow_sub_one_eq_mod,
      toNat_toUInt64_of_lt loadLt,toNat_toUInt64_of_lt (by omega),Nat.mod_eq_of_lt (by omega : b < 64),
      Nat.shiftRight_eq_div_pow,← Nat.mod_mul_right_div_self,← Nat.pow_add,show b + 7 * b = 8 * b by ring,
      ← pow_256,stored,toNat_varintWord pos (by omega) fits]
    have low : 2 ^ (b - 1) - 1 < 2 ^ b := by
      have : 2 ^ (b - 1) ≤ 2 ^ b := Nat.pow_le_pow_right (by decide) (by omega)
      have := Nat.one_le_two_pow (n := b - 1)
      omega
    rw [Nat.mul_add_div (Nat.two_pow_pos b),Nat.div_eq_of_lt low,Nat.add_zero]
  · -- Nine bytes: the value is the word after the 0xff marker.
    rw [enc]
    dsimp only
    rw [if_neg (by omega),List.take_succ_cons,take_leBytes le_rfl]
    have shift : pre ++ (255 :: leBytes 8 v.toNat ++ post) = (pre ++ [255]) ++ (leBytes 8 v.toNat ++ post) := by simp
    have len : pre.length + 1 = (pre ++ [255]).length := by simp
    have below : v.toNat < 256 ^ 8 := v.toNat_lt
    rw [shift,len,loadLE_append,List.take_append_of_le_length (by simp [length_leBytes]),take_leBytes le_rfl,
      ofLE_leBytes,Nat.mod_eq_of_lt below]
    congr 2
    exact UInt64.toNat_inj.mp (toNat_toUInt64_of_lt below)

theorem bch2VarintEncode_eq_take (v : UInt64) :
    bch2VarintEncode v = ((bch2VarintEncodeFast v).1.take (bch2VarintEncodeFast v).2,(bch2VarintEncodeFast v).2) := by
  rcases encodeFast_cases v with ⟨short,enc⟩ | ⟨long,enc⟩
  · rw [enc]
    exact if_pos short
  · rw [enc,List.take_of_length_le (by simp [length_leBytes])]
    exact if_neg (by omega)

theorem loadLE_take (mem : List UInt8) (inp : Nat) {b : Nat} (le : b ≤ 8) :
    loadLE mem inp b = loadLE mem inp 8 % 256 ^ b := by
  rw [loadLE,loadLE,← ofLE_take,List.take_take,Nat.min_eq_left le]

theorem loadLE_lt (mem : List UInt8) (inp : Nat) {b : Nat} (le : b ≤ 8) : loadLE mem inp b < 2 ^ 64 := by
  have lt := ofLE_lt ((mem.drop inp).take b)
  have bound : (256 : Nat) ^ ((mem.drop inp).take b).length ≤ 256 ^ 8 :=
    Nat.pow_le_pow_right (by decide) (by simp; omega)
  unfold loadLE
  omega

theorem bch2VarintDecode_eq_fast (mem : List UInt8) (inp bufEnd : Nat) :
    bch2VarintDecode mem inp bufEnd = bch2VarintDecodeFast mem inp bufEnd := by
  unfold bch2VarintDecode bch2VarintDecodeFast
  dsimp only
  by_cases inside : inp < bufEnd
  · rw [if_pos inside]
    generalize ffz (mem.getD inp 0) + 1 = b
    by_cases past : inp + b > bufEnd
    · rw [if_pos past,if_pos past]
    · rw [if_neg past,if_neg past]
      by_cases short : b < 9
      · rw [if_pos short,if_pos short]
        congr 2
        apply UInt64.toNat_inj.mp
        rw [UInt64.toNat_and,UInt64.toNat_shiftRight,UInt64.toNat_shiftRight,toNat_lowMask (by omega),
          Nat.and_two_pow_sub_one_eq_mod,toNat_toUInt64_of_lt (loadLE_lt mem inp (by omega)),
          toNat_toUInt64_of_lt (loadLE_lt mem inp le_rfl),toNat_toUInt64_of_lt (by omega),
          Nat.mod_eq_of_lt (by omega : b < 64),Nat.shiftRight_eq_div_pow,Nat.shiftRight_eq_div_pow,
          ← Nat.mod_mul_right_div_self,← Nat.pow_add,show b + 7 * b = 8 * b by ring,← pow_256,
          loadLE_take mem inp (by omega)]
      · rw [if_neg short,if_neg short]
  · -- Past the end the slow decoder reads nothing and fails; the fast one fails too.
    rw [if_neg inside,if_pos (by omega),if_pos (by omega)]

end Decode

section Roundtrip

theorem varint_encode_decode_roundtrip :
    (∀ v : UInt64,
      1 ≤ (bch2VarintEncode v).2 ∧ (bch2VarintEncode v).2 = min 9 ((max 1 (fls64 v) + 7 - 1) / 7) ∧
      (bch2VarintEncodeFast v).2 = (bch2VarintEncode v).2 ∧
      (∀ pre post bufEnd, pre.length + (bch2VarintEncode v).2 ≤ bufEnd →
        bch2VarintDecode (pre ++ (bch2VarintEncode v).1 ++ post) pre.length bufEnd = some (v,(bch2VarintEncode v).2)) ∧
      (∀ pre post bufEnd, pre.length + (bch2VarintEncodeFast v).2 ≤ bufEnd →
        bch2VarintDecodeFast (pre ++ (bch2VarintEncodeFast v).1 ++ post) pre.length bufEnd =
          some (v,(bch2VarintEncodeFast v).2))) ∧
    ∀ mem inp bufEnd, bch2VarintDecode mem inp bufEnd = bch2VarintDecodeFast mem inp bufEnd := by
  refine ⟨?_,bch2VarintDecode_eq_fast⟩
  intro v
  have slow := bch2VarintEncode_eq_take v
  have length : (bch2VarintEncodeFast v).2 = min 9 ((max 1 (fls64 v) + 7 - 1) / 7) := by
    rcases encodeFast_cases v with ⟨short,enc⟩ | ⟨long,enc⟩
    · rw [enc,← fls64_or_one]
      show varintBytes v = _
      unfold varintBytes at short ⊢
      omega
    · rw [enc,← fls64_or_one]
      show 9 = _
      unfold varintBytes at long
      omega
  rw [slow]
  refine ⟨?_,length,rfl,?_,?_⟩
  · rw [length]
    omega
  · intro pre post bufEnd room
    rw [bch2VarintDecode_eq_fast]
    exact bch2VarintDecodeFast_encodeFast v pre post room
  · -- The bytes of the store past the length are read as part of what follows.
    intro pre post bufEnd room
    rw [← List.take_append_drop (bch2VarintEncodeFast v).2 (bch2VarintEncodeFast v).1,List.append_assoc pre,
      List.append_assoc,← List.append_assoc pre]
    exact bch2VarintDecodeFast_encodeFast v pre _ room

theorem varint_roundtrip_three_hundred :
    bch2VarintDecode (bch2VarintEncode 300).1 0 2 = some (300,2) ∧
      bch2VarintDecodeFast (bch2VarintEncodeFast 300).1 0 2 = some (300,2) := by
  have slow := (varint_encode_decode_roundtrip.1 300).2.2.2.1 [] [] 2 (by decide)
  have fast := (varint_encode_decode_roundtrip.1 300).2.2.2.2 [] [] 2 (by decide)
  simp only [List.nil_append,List.append_nil,List.length_nil] at slow fast
  have length : (bch2VarintEncode 300).2 = 2 := by decide
  have lengthFast : (bch2VarintEncodeFast 300).2 = 2 := by decide
  rw [length] at slow
  rw [lengthFast] at fast
  exact ⟨slow,fast⟩

end Roundtrip

end Bcachefs
