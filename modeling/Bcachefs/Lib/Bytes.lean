import Mathlib

namespace Bytes

variable {α : Type}

-- memcpy(buf + off, src, len) into a buffer of fixed size; none when the range leaves it.
def memcpy (buf : List α) (off : Nat) (src : List α) : Option (List α) :=
  if off + src.length ≤ buf.length then some (buf.take off ++ src ++ buf.drop (off + src.length)) else none

def memset (buf : List α) (off : Nat) (c : α) (n : Nat) : Option (List α) := memcpy buf off (List.replicate n c)

-- memmove(buf + dst, buf + src, n): the source is read whole before the copy lands.
def memmove (buf : List α) (dst src n : Nat) : Option (List α) :=
  if src + n ≤ buf.length then memcpy buf dst ((buf.drop src).take n) else none

-- The low w bytes of v, least significant first.
def leBytes : Nat → Nat → List UInt8
  | 0,_ => []
  | w+1,v => (v % 256).toUInt8 :: leBytes w (v / 256)

def ofLE : List UInt8 → Nat
  | [] => 0
  | b :: rest => b.toNat + 256 * ofLE rest

def loadLE (buf : List UInt8) (off width : Nat) : Nat := ofLE ((buf.drop off).take width)

def storeLE (buf : List UInt8) (off width v : Nat) : Option (List UInt8) := memcpy buf off (leBytes width v)

section Memcpy
variable {buf out src : List α} {off : Nat}

theorem memcpy_of_le (inside : off + src.length ≤ buf.length) :
    memcpy buf off src = some (buf.take off ++ src ++ buf.drop (off + src.length)) := by
  rw [memcpy,if_pos inside]

theorem memcpy_of_lt (outside : buf.length < off + src.length) : memcpy buf off src = none := by
  rw [memcpy,if_neg (Nat.not_le.mpr outside)]

theorem memcpy_append (pre rest src : List α) (fits : src.length ≤ rest.length) :
    memcpy (pre ++ rest) pre.length src = some (pre ++ src ++ rest.drop src.length) := by
  rw [memcpy_of_le (by simp only [List.length_append]; omega),List.take_left,List.drop_append,List.drop_eq_nil_of_le (by omega),
    List.nil_append,Nat.add_sub_cancel_left]

theorem memmove_of_le {dst src n : Nat} (inside : src + n ≤ buf.length) :
    memmove buf dst src n = memcpy buf dst ((buf.drop src).take n) := by
  rw [memmove,if_pos inside]

theorem memcpy_inside (copied : memcpy buf off src = some out) : off + src.length ≤ buf.length := by
  unfold memcpy at copied
  split at copied
  · assumption
  · cases copied

theorem memcpy_eq (copied : memcpy buf off src = some out) :
    out = buf.take off ++ src ++ buf.drop (off + src.length) := by
  rw [memcpy_of_le (memcpy_inside copied)] at copied
  exact (Option.some.inj copied).symm

theorem length_memcpy (copied : memcpy buf off src = some out) : out.length = buf.length := by
  have inside := memcpy_inside copied
  rw [memcpy_eq copied]
  simp only [List.length_append,List.length_take,List.length_drop]
  omega

theorem take_memcpy (copied : memcpy buf off src = some out) :
    out.take (off + src.length) = buf.take off ++ src := by
  have inside := memcpy_inside copied
  have prefixLength : (buf.take off ++ src).length = off + src.length := by simp; omega
  rw [memcpy_eq copied,← prefixLength,List.take_left]

theorem memcpy_to_end (copied : memcpy buf off src = some out) (toEnd : off + src.length = buf.length) :
    out = buf.take off ++ src := by
  rw [memcpy_eq copied,toEnd,List.drop_length,List.append_nil]

theorem getElem?_memcpy_of_lt {i : Nat} (copied : memcpy buf off src = some out) (before : i < off) :
    out[i]? = buf[i]? := by
  have inside := memcpy_inside copied
  rw [memcpy_eq copied,List.append_assoc,List.getElem?_append_left (by simp; omega),List.getElem?_take_of_lt before]

theorem getElem?_memcpy_of_ge {i : Nat} (copied : memcpy buf off src = some out) (after : off + src.length ≤ i) :
    out[i]? = buf[i]? := by
  have inside := memcpy_inside copied
  have prefixLength : (buf.take off ++ src).length = off + src.length := by simp; omega
  rw [memcpy_eq copied,List.getElem?_append_right (by omega),prefixLength,List.getElem?_drop]
  congr 1
  omega

theorem take_memcpy_of_le {n : Nat} (copied : memcpy buf off src = some out) (before : n ≤ off) :
    out.take n = buf.take n := by
  have inside := memcpy_inside copied
  rw [memcpy_eq copied,List.append_assoc,List.take_append_of_le_length (by simp; omega),List.take_take,
    Nat.min_eq_left before]

theorem getElem?_memcpy_of_mem {i : Nat} (copied : memcpy buf off src = some out) (after : off ≤ i)
    (before : i < off + src.length) : out[i]? = src[i - off]? := by
  have inside := memcpy_inside copied
  have prefixLength : (buf.take off).length = off := by simp; omega
  rw [memcpy_eq copied,List.getElem?_append_left (by simp; omega),List.getElem?_append_right (by omega),
    prefixLength]

theorem length_memcpy_getD (buf : List α) (off : Nat) (src : List α) :
    ((memcpy buf off src).getD buf).length = buf.length := by
  cases copied : memcpy buf off src with
  | none => rfl
  | some out => exact length_memcpy copied

theorem length_memmove_getD (buf : List α) (dst src n : Nat) :
    ((memmove buf dst src n).getD buf).length = buf.length := by
  unfold memmove
  split
  · exact length_memcpy_getD _ _ _
  · rfl

theorem length_memset_getD (buf : List α) (off : Nat) (c : α) (n : Nat) :
    ((memset buf off c n).getD buf).length = buf.length := length_memcpy_getD _ _ _

theorem getElem?_memmove_of_mem {dst src n i : Nat} (inside : src + n ≤ buf.length) (fits : dst + n ≤ buf.length)
    (after : dst ≤ i) (before : i < dst + n) : ((memmove buf dst src n).getD buf)[i]? = buf[src + (i - dst)]? := by
  have taken : ((buf.drop src).take n).length = n := by simp; omega
  obtain ⟨out,copied⟩ : ∃ out, memcpy buf dst ((buf.drop src).take n) = some out :=
    ⟨_,memcpy_of_le (by rw [taken]; exact fits)⟩
  rw [memmove_of_le inside,copied,Option.getD_some,getElem?_memcpy_of_mem copied after (by rw [taken]; exact before),
    List.getElem?_take_of_lt (by omega),List.getElem?_drop]

end Memcpy

theorem getD_append_cons (pre rest : List α) (x d : α) : (pre ++ x :: rest).getD pre.length d = x := by
  rw [List.getD_eq_getElem?_getD,List.getElem?_append_right le_rfl]
  simp

theorem map_getD_range (l : List α) (d : α) : (List.range l.length).map (l.getD · d) = l := by
  apply List.ext_getElem (by simp)
  intro i _ inside
  simp [List.getElem?_eq_getElem inside]

theorem memset_eq {buf out : List α} {off n : Nat} {c : α} (set : memset buf off c n = some out) :
    out = buf.take off ++ List.replicate n c ++ buf.drop (off + n) := by
  have := memcpy_eq set
  rwa [List.length_replicate] at this

theorem length_leBytes (w v : Nat) : (leBytes w v).length = w := by
  induction w generalizing v with
  | zero => rfl
  | succ w ih => simp [leBytes,ih]

theorem ofLE_leBytes (w v : Nat) : ofLE (leBytes w v) = v % 256^w := by
  induction w generalizing v with
  | zero => simp [leBytes,ofLE,Nat.mod_one]
  | succ w ih =>
    have low : (v % 256).toUInt8.toNat = v % 256 := by
      rw [Nat.toUInt8_eq,UInt8.toNat_ofNat',Nat.mod_mod_of_dvd _ (by decide)]
    rw [leBytes,ofLE,low,ih,Nat.pow_succ,Nat.mul_comm _ 256,Nat.mod_mul]

theorem ofLE_append (l m : List UInt8) : ofLE (l ++ m) = ofLE l + 256^l.length * ofLE m := by
  induction l with
  | nil => simp [ofLE]
  | cons b rest ih =>
    simp only [List.cons_append,ofLE,ih,List.length_cons,Nat.pow_succ]
    ring

theorem ofLE_take (l : List UInt8) (m : Nat) : ofLE (l.take m) = ofLE l % 256^m := by
  induction l generalizing m with
  | nil => simp [ofLE]
  | cons b rest ih =>
    cases m with
    | zero => simp [ofLE,Nat.mod_one]
    | succ m =>
      have low := b.toNat_lt
      rw [List.take_succ_cons,ofLE,ofLE,ih,Nat.pow_succ,Nat.mul_comm _ 256,Nat.mod_mul]
      have mod : (b.toNat + 256 * ofLE rest) % 256 = b.toNat := by omega
      have div : (b.toNat + 256 * ofLE rest) / 256 = ofLE rest := by omega
      rw [mod,div]

theorem take_leBytes {m n : Nat} (le : m ≤ n) (v : Nat) : (leBytes n v).take m = leBytes m v := by
  induction m generalizing n v with
  | zero => rfl
  | succ m ih =>
    obtain ⟨n,rfl⟩ : ∃ k, n = k + 1 := ⟨n - 1,by omega⟩
    rw [leBytes,leBytes,List.take_succ_cons,ih (by omega)]

theorem ofLE_replicate_zero (n : Nat) : ofLE (List.replicate n 0) = 0 := by
  induction n with
  | zero => rfl
  | succ n ih => simp [List.replicate_succ,ofLE,ih]

theorem ofLE_lt (l : List UInt8) : ofLE l < 256^l.length := by
  induction l with
  | nil => simp [ofLE]
  | cons b rest ih =>
    have := b.toNat_lt
    simp only [ofLE,List.length_cons,Nat.pow_succ]
    omega

theorem ofLE_ge (init : List UInt8) {last : UInt8} (top : last ≠ 0) : 256^init.length ≤ ofLE (init ++ [last]) := by
  have positive : 0 < last.toNat := Nat.pos_of_ne_zero fun zero => top (UInt8.toNat_inj.mp (by simpa using zero))
  rw [ofLE_append]
  simp only [ofLE]
  have : 256^init.length * 1 ≤ 256^init.length * (last.toNat + 256 * 0) := Nat.mul_le_mul_left _ (by omega)
  omega

theorem pow_256 (n : Nat) : 256^n = 2^(8*n) := by
  rw [Nat.pow_mul]

theorem log2_ofLE (init : List UInt8) {last : UInt8} (top : last ≠ 0) :
    8 * init.length ≤ (ofLE (init ++ [last])).log2 ∧ (ofLE (init ++ [last])).log2 < 8 * (init.length + 1) := by
  have ge := ofLE_ge init top
  have lt := ofLE_lt (init ++ [last])
  rw [List.length_append,List.length_singleton,pow_256] at lt
  rw [pow_256] at ge
  have nonzero : ofLE (init ++ [last]) ≠ 0 := by
    have := Nat.one_le_two_pow (n := 8 * init.length)
    omega
  exact ⟨(Nat.le_log2 nonzero).mpr ge,(Nat.log2_lt nonzero).mpr lt⟩

theorem take_memcpy_of_ge {buf out src : List α} {off n : Nat} (copied : memcpy buf off src = some out)
    (after : off + src.length ≤ n) : out.take n = buf.take off ++ src ++ (buf.take n).drop (off + src.length) := by
  have inside := memcpy_inside copied
  rw [memcpy_eq copied,List.take_append,List.take_of_length_le (by simp; omega)]
  simp only [List.length_append,List.length_take,List.take_drop]
  rw [Nat.min_eq_left (by omega : off ≤ buf.length),show off + src.length + (n - (off + src.length)) = n by omega]

end Bytes
