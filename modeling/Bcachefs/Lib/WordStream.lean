import Mathlib

namespace WordStream

def value (ws : List UInt64) : Nat := ws.foldl (fun acc w => acc * 2^64 + w.toNat) 0

@[simp] theorem value_nil : value [] = 0 := rfl

theorem value_append_word (ws : List UInt64) (w : UInt64) :
    value (ws ++ [w]) = value ws * 2^64 + w.toNat := by
  simp [value,List.foldl_append]

theorem value_append (ws vs : List UInt64) : value (ws ++ vs) = value ws * 2^(64*vs.length) + value vs := by
  induction vs using List.reverseRecOn with
  | nil => simp
  | append_singleton vs v ih =>
    rw [← List.append_assoc,value_append_word,ih,value_append_word]
    simp only [List.length_append,List.length_singleton,Nat.mul_add,Nat.mul_one,Nat.pow_add]
    ring

theorem value_replicate_zero (n : Nat) : value (List.replicate n 0) = 0 := by
  induction n with
  | zero => rfl
  | succ n ih => rw [List.replicate_succ',value_append_word,ih]; rfl

theorem testBit_value (ws : List UInt64) (i : Nat) :
    (value ws).testBit i =
      (decide (i < 64*ws.length) && (ws.getD (ws.length-1-i/64) 0).toNat.testBit (i%64)) := by
  induction ws using List.reverseRecOn generalizing i with
  | nil => simp
  | append_singleton ws w ih =>
    rw [value_append_word,Nat.mul_comm,Nat.testBit_two_pow_mul_add _ w.toNat_lt]
    by_cases low : i < 64
    · have last : (ws ++ [w]).getD ((ws ++ [w]).length-1-i/64) 0 = w := by
        have index : (ws ++ [w]).length-1-i/64 = ws.length := by simp; omega
        rw [index,List.getD_eq_getElem?_getD]; simp
      have inside : i < 64*(ws ++ [w]).length := by simp; omega
      rw [if_pos low,last,Nat.mod_eq_of_lt low,decide_eq_true inside,Bool.true_and]
    · have index : (ws ++ [w]).length-1-i/64 = ws.length-1-(i-64)/64 := by simp; omega
      have bit : (i-64)%64 = i%64 := by omega
      rw [if_neg low,ih,index,bit]
      by_cases inside : i < 64*(ws ++ [w]).length
      · have below : ws.length-1-(i-64)/64 < ws.length := by simp at inside; omega
        have before : i-64 < 64*ws.length := by simp at inside; omega
        simp only [inside,before,decide_true,Bool.true_and,List.getD_eq_getElem?_getD,
          List.getElem?_append_left below]
      · have before : ¬ i-64 < 64*ws.length := by simp at inside; omega
        rw [decide_eq_false before,decide_eq_false inside,Bool.false_and,Bool.false_and]

theorem toNat_shiftLeft_lt (x : UInt64) {k : Nat} (small : k < 64) :
    (x <<< UInt64.ofNat k).toNat = x.toNat * 2^k % 2^64 := by
  rw [UInt64.toNat_shiftLeft,UInt64.toNat_ofNat',Nat.mod_eq_of_lt (by omega : k < 2^64),
    Nat.mod_eq_of_lt small,Nat.shiftLeft_eq]

theorem toNat_shiftRight_lt (x : UInt64) {k : Nat} (small : k < 64) :
    (x >>> UInt64.ofNat k).toNat = x.toNat / 2^k := by
  rw [UInt64.toNat_shiftRight,UInt64.toNat_ofNat',Nat.mod_eq_of_lt (by omega : k < 2^64),
    Nat.mod_eq_of_lt small,Nat.shiftRight_eq_div_pow]

theorem toNat_shiftLeft_one (x : UInt64) : (x <<< 1).toNat = x.toNat * 2 % 2^64 := by
  rw [UInt64.toNat_shiftLeft,Nat.shiftLeft_eq]
  rfl

theorem toNat_ones : (~~~0 : UInt64).toNat = 2^64 - 1 := rfl

-- The low b bits, as ~((~0 << (b - 1)) << 1) builds them for 0 < b <= 64
-- without shifting by the full width.
theorem toNat_lowMask {b : Nat} (pos : 0 < b) (le : b ≤ 64) :
    (~~~(((~~~0 : UInt64) <<< UInt64.ofNat (b-1)) <<< 1)).toNat = 2^b - 1 := by
  have split : 2^b = 2 * 2^(b-1) := by rw [← Nat.pow_succ']; congr 1; omega
  have one := Nat.one_le_two_pow (n := b-1)
  have top : 2^(b-1) ≤ 2^63 := Nat.pow_le_pow_right (by decide) (by omega)
  rw [UInt64.toNat_not,show UInt64.size = 2^64 from rfl,toNat_shiftLeft_one,toNat_shiftLeft_lt _ (by omega),
    toNat_ones,split]
  omega

-- The same mask with the shifts the other way round, ~((~0 << 1) << (b - 1)).
theorem toNat_lowMask_rev {b : Nat} (pos : 0 < b) (le : b ≤ 64) :
    (~~~(((~~~0 : UInt64) <<< 1) <<< UInt64.ofNat (b-1))).toNat = 2^b - 1 := by
  have split : 2^b = 2 * 2^(b-1) := by rw [← Nat.pow_succ']; congr 1; omega
  have one := Nat.one_le_two_pow (n := b-1)
  have top : 2^(b-1) ≤ 2^63 := Nat.pow_le_pow_right (by decide) (by omega)
  rw [UInt64.toNat_not,show UInt64.size = 2^64 from rfl,toNat_shiftLeft_lt _ (by omega),toNat_shiftLeft_one,
    toNat_ones,split]
  omega

-- The low b bits as ~(~0 << b) builds them, for b below the word width.
theorem toNat_not_shiftLeft {b : Nat} (small : b < 64) : (~~~((~~~0 : UInt64) <<< UInt64.ofNat b)).toNat = 2^b - 1 := by
  have one := Nat.one_le_two_pow (n := b)
  have top : 2^b ≤ 2^63 := Nat.pow_le_pow_right (by decide) (by omega)
  have wrapped : (2^64 - 1) * 2^b = (2^b - 1) * 2^64 + (2^64 - 2^b) := by omega
  rw [UInt64.toNat_not,show UInt64.size = 2^64 from rfl,toNat_shiftLeft_lt _ small,toNat_ones,wrapped,
    Nat.mul_comm _ (2^64),Nat.mul_add_mod,Nat.mod_eq_of_lt (by omega)]
  omega

theorem toNat_one_shiftLeft {b : Nat} (small : b < 64) : ((1 : UInt64) <<< UInt64.ofNat b).toNat = 2^b := by
  have top : 2^b < 2^64 := Nat.pow_lt_pow_right (by decide) small
  rw [toNat_shiftLeft_lt _ small,UInt64.toNat_one,Nat.one_mul,Nat.mod_eq_of_lt top]

theorem toNat_or_low (w y : UInt64) {r : Nat} (low : w.toNat % 2^r = 0) (small : y.toNat < 2^r) :
    (w ||| y).toNat = w.toNat + y.toNat := by
  obtain ⟨q,hq⟩ : 2^r ∣ w.toNat := Nat.dvd_of_mod_eq_zero low
  rw [UInt64.toNat_or,hq,Nat.two_pow_add_eq_or_of_lt small]

theorem pow_split {b n : Nat} (le : b ≤ n) : 2^n = 2^(n-b) * 2^b := by
  rw [← Nat.pow_add,Nat.sub_add_cancel le]

theorem take_set_succ {α : Type} (l : List α) {p : Nat} (w : α) (inside : p < l.length) :
    (l.set p w).take (p+1) = l.take p ++ [w] := by
  have prefix_length : (l.take p).length = p := by simp; omega
  rw [List.take_set,List.take_add_one,List.getElem?_eq_getElem inside,Option.toList_some,
    List.set_append_right _ _ (Nat.le_of_eq prefix_length),prefix_length,Nat.sub_self]
  rfl

structure Writer where
  done : List UInt64
  w : UInt64
  free : Nat

namespace Writer

def stream (s : Writer) : Nat := (value s.done * 2^64 + s.w.toNat) / 2^s.free

def length (s : Writer) : Nat := 64*(s.done.length+1) - s.free

def Clean (s : Writer) : Prop := s.free ≤ 64 ∧ s.w.toNat % 2^s.free = 0

theorem stream_mul (s : Writer) (clean : s.Clean) :
    s.stream * 2^s.free = value s.done * 2^64 + s.w.toNat := by
  obtain ⟨free64,low⟩ := clean
  have whole : 2^s.free ∣ value s.done * 2^64 + s.w.toNat := by
    apply Nat.dvd_add
    · exact Dvd.dvd.mul_left (Nat.pow_dvd_pow 2 free64) _
    · exact Nat.dvd_of_mod_eq_zero low
  exact Nat.div_mul_cancel whole

theorem fill (s : Writer) (clean : s.Clean) {b : Nat} {x : UInt64} (pos : 0 < b) (le : b ≤ s.free)
    (fits : x.toNat < 2^b) :
    let t : Writer := ⟨s.done,s.w ||| x <<< UInt64.ofNat (s.free-b),s.free-b⟩
    t.Clean ∧ t.stream = s.stream * 2^b + x.toNat ∧ t.length = s.length + b := by
  intro t
  have whole := s.stream_mul clean
  obtain ⟨free64,low⟩ := clean
  have split := pow_split le
  have below : x.toNat * 2^(s.free-b) < 2^s.free := by
    rw [split,Nat.mul_comm (2^(s.free-b))]
    exact Nat.mul_lt_mul_of_pos_right fits (Nat.two_pow_pos _)
  have shifted : (x <<< UInt64.ofNat (s.free-b)).toNat = x.toNat * 2^(s.free-b) := by
    rw [toNat_shiftLeft_lt _ (by omega)]
    exact Nat.mod_eq_of_lt (Nat.lt_of_lt_of_le below (Nat.pow_le_pow_right (by decide) free64))
  have word : t.w.toNat = s.w.toNat + x.toNat * 2^(s.free-b) := by
    simp only [t]; rw [toNat_or_low _ _ low (shifted ▸ below),shifted]
  have scaled : value t.done * 2^64 + t.w.toNat = (s.stream * 2^b + x.toNat) * 2^(s.free-b) := by
    rw [word,← Nat.add_assoc,← whole,split]
    ring
  refine ⟨⟨by simp only [t]; omega,?_⟩,?_,?_⟩
  · obtain ⟨q,hq⟩ := Nat.dvd_of_mod_eq_zero low
    have factored : s.w.toNat + x.toNat * 2^(s.free-b) = (2^b*q + x.toNat) * 2^(s.free-b) := by
      rw [hq,split]; ring
    rw [word,factored]
    exact Nat.mul_mod_left _ _
  · simp only [stream]
    rw [scaled]
    simp only [t]
    exact Nat.mul_div_cancel _ (Nat.two_pow_pos _)
  · simp only [length,t]; omega

theorem spill (s : Writer) (clean : s.Clean) {b : Nat} {x : UInt64} (spills : s.free < b) (b64 : b ≤ 64)
    (fits : x.toNat < 2^b) :
    let c := b - s.free
    let t : Writer := ⟨s.done ++ [s.w ||| (x >>> 1) >>> UInt64.ofNat (c-1)],
      0 ||| x <<< UInt64.ofNat (64-c),64-c⟩
    t.Clean ∧ t.stream = s.stream * 2^b + x.toNat ∧ t.length = s.length + b := by
  intro c t
  have whole := s.stream_mul clean
  obtain ⟨free64,low⟩ := clean
  have split : 2^b = 2^c * 2^s.free := by rw [← Nat.pow_add]; congr 1; omega
  have high : ((x >>> 1) >>> UInt64.ofNat (c-1)).toNat = x.toNat / 2^c := by
    have one : x >>> 1 = x >>> UInt64.ofNat 1 := rfl
    rw [one,toNat_shiftRight_lt _ (by omega),toNat_shiftRight_lt _ (by omega),Nat.div_div_eq_div_mul,
      ← Nat.pow_add]
    congr 2; omega
  have highSmall : x.toNat / 2^c < 2^s.free := by
    rw [Nat.div_lt_iff_lt_mul (Nat.two_pow_pos _),Nat.mul_comm,← split]; exact fits
  have first : (s.w ||| (x >>> 1) >>> UInt64.ofNat (c-1)).toNat = s.w.toNat + x.toNat / 2^c := by
    rw [toNat_or_low _ _ low (high ▸ highSmall),high]
  have second : t.w.toNat = x.toNat % 2^c * 2^(64-c) := by
    simp only [t]
    rw [UInt64.toNat_or,UInt64.toNat_zero,Nat.zero_or,toNat_shiftLeft_lt _ (by omega)]
    have wide : 2^64 = 2^c * 2^(64-c) := by rw [← Nat.pow_add]; congr 1; omega
    rw [wide,Nat.mul_mod_mul_right]
  refine ⟨⟨by simp only [t]; omega,?_⟩,?_,?_⟩
  · rw [second]; exact Nat.mul_mod_left _ _
  · have total : value t.done * 2^64 + t.w.toNat = (s.stream * 2^b + x.toNat) * 2^(64-c) := by
      have parts := Nat.div_add_mod x.toNat (2^c)
      have wide : 2^64 = 2^c * 2^(64-c) := by rw [← Nat.pow_add]; congr 1; omega
      simp only [t]
      rw [value_append_word,first,second,split,Nat.mul_comm (2^c) (2^s.free),← Nat.mul_assoc,whole,wide]
      nth_rewrite 3 [← parts]
      ring
    simp only [stream]
    rw [total]
    exact Nat.mul_div_cancel _ (Nat.two_pow_pos _)
  · simp only [length,t,List.length_append,List.length_singleton]; omega

end Writer

def window (n pos len : Nat) : Nat := n / 2^pos % 2^len

theorem testBit_window (n pos len j : Nat) :
    (window n pos len).testBit j = (decide (j < len) && n.testBit (j+pos)) := by
  simp [window,Nat.testBit_div_two_pow]

theorem testBit_value_word (ws : List UInt64) {q r i : Nat} (inside : q < ws.length) (bit : r < 64)
    (located : i = 64*(ws.length-1-q) + r) : (value ws).testBit i = (ws.getD q 0).toNat.testBit r := by
  have below : i < 64*ws.length := by omega
  have index : ws.length-1-i/64 = q := by omega
  have offset : i%64 = r := by omega
  rw [testBit_value,index,offset,decide_eq_true below,Bool.true_and]

theorem testBit_word_high (w : UInt64) {i : Nat} (high : 64 ≤ i) : w.toNat.testBit i = false :=
  Nat.testBit_lt_two_pow (Nat.lt_of_lt_of_le w.toNat_lt (Nat.pow_le_pow_right (by decide) high))

-- Fields given as (width, value), laid out one after another from the most
-- significant end: the number a packed key's fields spell.
def layout (fields : List (Nat × Nat)) : Nat := fields.foldl (fun acc f => acc * 2^f.1 + f.2) 0

def widthSum (fields : List (Nat × Nat)) : Nat := (fields.map Prod.fst).sum

def Fits (fields : List (Nat × Nat)) : Prop := ∀ f ∈ fields, f.2 < 2^f.1

theorem layout_append_field (fields : List (Nat × Nat)) (f : Nat × Nat) :
    layout (fields ++ [f]) = layout fields * 2^f.1 + f.2 := by
  simp [layout,List.foldl_append]

@[simp] theorem widthSum_nil : widthSum [] = 0 := rfl

@[simp] theorem widthSum_cons (f : Nat × Nat) (fields : List (Nat × Nat)) :
    widthSum (f :: fields) = f.1 + widthSum fields := by
  simp [widthSum]

theorem widthSum_append (pre post : List (Nat × Nat)) : widthSum (pre ++ post) = widthSum pre + widthSum post := by
  simp [widthSum]

theorem layout_append (pre post : List (Nat × Nat)) :
    layout (pre ++ post) = layout pre * 2^(widthSum post) + layout post := by
  induction post using List.reverseRecOn with
  | nil => simp [layout,widthSum]
  | append_singleton post f ih =>
    rw [← List.append_assoc,layout_append_field,ih,layout_append_field]
    simp only [widthSum,List.map_append,List.sum_append,List.map_cons,List.map_nil,List.sum_cons,
      List.sum_nil,Nat.add_zero,Nat.pow_add]
    ring

theorem layout_lt {fields : List (Nat × Nat)} (fits : Fits fields) : layout fields < 2^(widthSum fields) := by
  induction fields using List.reverseRecOn with
  | nil => simp [layout,widthSum]
  | append_singleton fs f ih =>
    have front := ih (fun g member => fits g (by simp [member]))
    have last := fits f (by simp)
    rw [layout_append]
    have single : layout [f] = f.2 := by simp [layout]
    have width : widthSum [f] = f.1 := by simp [widthSum]
    have total : widthSum (fs ++ [f]) = widthSum fs + f.1 := by simp [widthSum]
    rw [single,width,total,Nat.pow_add]
    calc layout fs * 2^f.1 + f.2 < layout fs * 2^f.1 + 2^f.1 := by omega
      _ = (layout fs + 1) * 2^f.1 := by ring
      _ ≤ 2^widthSum fs * 2^f.1 := Nat.mul_le_mul_right _ front

theorem window_layout (pre post : List (Nat × Nat)) {b x : Nat} (pad : Nat) (fits : Fits post)
    (small : x < 2^b) : window (layout (pre ++ (b,x) :: post) * 2^pad) (widthSum post + pad) b = x := by
  have rest := layout_lt fits
  have split : layout (pre ++ (b,x) :: post) * 2^pad =
      (layout pre * 2^b + x) * 2^(widthSum post + pad) + layout post * 2^pad := by
    rw [← List.singleton_append,← List.append_assoc,layout_append,layout_append]
    have single : layout [(b,x)] = x := by simp [layout]
    have width : widthSum [(b,x)] = b := by simp [widthSum]
    rw [single,width,Nat.pow_add]; ring
  have low : layout post * 2^pad < 2^(widthSum post + pad) := by
    rw [Nat.pow_add]; exact Nat.mul_lt_mul_of_pos_right rest (Nat.two_pow_pos _)
  rw [window,split,Nat.mul_comm _ (2^(widthSum post + pad)),Nat.mul_add_div (Nat.two_pow_pos _),
    Nat.div_eq_of_lt low,Nat.add_zero,Nat.mul_comm,Nat.mul_add_mod,Nat.mod_eq_of_lt small]

theorem window_lt (n pos len : Nat) : window n pos len < 2^len := Nat.mod_lt _ (Nat.two_pow_pos _)

theorem window_zero (n pos : Nat) : window n pos 0 = 0 := by
  simp [window,Nat.mod_one]

theorem window_add (n pos high low : Nat) :
    window n pos (high+low) = window n (pos+low) high * 2^low + window n pos low := by
  unfold window
  rw [Nat.add_comm high low,Nat.pow_add,Nat.mod_mul,Nat.pow_add,← Nat.div_div_eq_div_mul]
  ring

theorem window_value_top (ws : List UInt64) {p n : Nat} (inside : p < ws.length) (n64 : n ≤ 64) :
    window (value ws) (64*(ws.length-p)-n) n = (ws.getD p 0).toNat / 2^(64-n) := by
  apply Nat.eq_of_testBit_eq
  intro j
  rw [testBit_window,Nat.testBit_div_two_pow]
  by_cases low : j < n
  · rw [testBit_value_word ws (q:=p) (r:=j+(64-n)) inside (by omega) (by omega)]
    simp [low]
  · rw [testBit_word_high _ (by omega)]
    simp [low]

theorem window_layout_high (pre post : List (Nat × Nat)) (pad : Nat) (fitsPre : Fits pre)
    (fitsPost : Fits post) : window (layout (pre ++ post) * 2^pad) (widthSum post + pad) (widthSum pre) =
      layout pre := by
  have low : layout post * 2^pad < 2^(widthSum post + pad) := by
    rw [Nat.pow_add]; exact Nat.mul_lt_mul_of_pos_right (layout_lt fitsPost) (Nat.two_pow_pos _)
  have split : layout (pre ++ post) * 2^pad = layout pre * 2^(widthSum post + pad) + layout post * 2^pad := by
    rw [layout_append,Nat.pow_add]; ring
  rw [window,split,Nat.mul_comm (layout pre),Nat.mul_add_div (Nat.two_pow_pos _),Nat.div_eq_of_lt low,
    Nat.add_zero,Nat.mod_eq_of_lt (layout_lt fitsPre)]

theorem compare_mul_add (m : Nat) {a b c d : Nat} (lowC : c < 2^m) (lowD : d < 2^m) :
    compare (a*2^m + c) (b*2^m + d) = (compare a b).then (compare c d) := by
  rcases Nat.lt_trichotomy a b with less | same | more
  · have below : a*2^m + c < b*2^m + d := by
      have step : (a+1)*2^m ≤ b*2^m := Nat.mul_le_mul_right _ less
      rw [Nat.add_mul,Nat.one_mul] at step; omega
    rw [Nat.compare_eq_lt.mpr below,Nat.compare_eq_lt.mpr less]; rfl
  · subst same
    rw [Nat.compare_eq_eq.mpr rfl,Ordering.eq_then]
    rcases Nat.lt_trichotomy c d with lt | eq | gt
    · rw [Nat.compare_eq_lt.mpr (by omega),Nat.compare_eq_lt.mpr lt]
    · subst eq; rw [Nat.compare_eq_eq.mpr rfl,Nat.compare_eq_eq.mpr rfl]
    · rw [Nat.compare_eq_gt.mpr (by omega),Nat.compare_eq_gt.mpr gt]
  · have above : b*2^m + d < a*2^m + c := by
      have step : (b+1)*2^m ≤ a*2^m := Nat.mul_le_mul_right _ more
      rw [Nat.add_mul,Nat.one_mul] at step; omega
    rw [Nat.compare_eq_gt.mpr above,Nat.compare_eq_gt.mpr more]; rfl

theorem compare_layout_append_field (fs gs : List (Nat × Nat)) {b x y : Nat} (lowX : x < 2^b)
    (lowY : y < 2^b) :
    compare (layout (fs ++ [(b,x)])) (layout (gs ++ [(b,y)])) = (compare (layout fs) (layout gs)).then (compare x y) := by
  rw [layout_append_field,layout_append_field]
  exact compare_mul_add b lowX lowY

theorem compare_sub_right {a b c : Nat} (ha : c ≤ a) (hb : c ≤ b) : compare (a-c) (b-c) = compare a b := by
  rcases Nat.lt_trichotomy a b with less | same | more
  · rw [Nat.compare_eq_lt.mpr less,Nat.compare_eq_lt.mpr (by omega)]
  · subst same; rw [Nat.compare_eq_eq.mpr rfl,Nat.compare_eq_eq.mpr rfl]
  · rw [Nat.compare_eq_gt.mpr more,Nat.compare_eq_gt.mpr (by omega)]

theorem compare_uint64 (a b : UInt64) : compare a b = compare a.toNat b.toNat := by
  simp only [compare,compareOfLessAndEq,UInt64.lt_iff_toNat_lt,← UInt64.toNat_inj]

theorem compare_uint32 (a b : UInt32) : compare a b = compare a.toNat b.toNat := by
  simp only [compare,compareOfLessAndEq,UInt32.lt_iff_toNat_lt,← UInt32.toNat_inj]

structure Reader where
  p : Nat
  w : UInt64
  left : Nat

namespace Reader

def Aligned (ws : List UInt64) (s : Reader) : Prop :=
  0 < s.left ∧ s.left ≤ 64 ∧ s.w.toNat = (ws.getD s.p 0).toNat * 2^(64-s.left) % 2^64

def consumed (s : Reader) : Nat := 64*(s.p+1) - s.left

theorem testBit_unread (ws : List UInt64) (s : Reader) (aligned : s.Aligned ws) (i : Nat) :
    s.w.toNat.testBit i =
      (decide (i < 64) && decide (64-s.left ≤ i) && (ws.getD s.p 0).toNat.testBit (i-(64-s.left))) := by
  rw [aligned.2.2,Nat.testBit_mod_two_pow,Nat.testBit_mul_two_pow,Bool.and_assoc]

theorem read_within (ws : List UInt64) (s : Reader) (aligned : s.Aligned ws) {b : Nat} (short : b < s.left)
    (bound : s.consumed + b ≤ 64*ws.length) :
    let t : Reader := ⟨s.p,s.w <<< UInt64.ofNat b,s.left-b⟩
    t.Aligned ws ∧ t.consumed = s.consumed + b ∧
      ((s.w >>> 1) >>> UInt64.ofNat (63-b)).toNat = window (value ws) (64*ws.length-s.consumed-b) b := by
  intro t
  obtain ⟨pos,left64,word⟩ := aligned
  have one : s.w >>> 1 = s.w >>> UInt64.ofNat 1 := rfl
  refine ⟨⟨by simp only [t]; omega,by simp only [t]; omega,?_⟩,by simp only [consumed,t]; omega,?_⟩
  · simp only [t]
    rw [toNat_shiftLeft_lt _ (by omega),word,Nat.mod_mul_mod,Nat.mul_assoc,← Nat.pow_add]
    congr 3; omega
  · apply Nat.eq_of_testBit_eq
    intro j
    rw [one,toNat_shiftRight_lt _ (by omega),toNat_shiftRight_lt _ (by omega),Nat.div_div_eq_div_mul,
      ← Nat.pow_add,Nat.testBit_div_two_pow,testBit_unread ws s ⟨pos,left64,word⟩,testBit_window]
    simp only [consumed] at bound ⊢
    by_cases inside : j < b
    · rw [testBit_value_word ws (q:=s.p) (r:=s.left-b+j) (by omega) (by omega) (by omega)]
      have low : j + (1+(63-b)) < 64 := by omega
      have high : 64-s.left ≤ j + (1+(63-b)) := by omega
      simp only [low,high,inside,decide_true,Bool.true_and]
      congr 1; omega
    · have high : ¬ j + (1+(63-b)) < 64 := by omega
      simp [high,inside]

theorem read_across (ws : List UInt64) (s : Reader) (aligned : s.Aligned ws) {b : Nat} (reaches : s.left ≤ b)
    (b64 : b ≤ 64) (bound : s.consumed + b ≤ 64*ws.length) :
    let c := b - s.left
    let next := ws.getD (s.p+1) 0
    let t : Reader := ⟨s.p+1,next <<< UInt64.ofNat c,64-c⟩
    t.Aligned ws ∧ t.consumed = s.consumed + b ∧
      (s.w >>> UInt64.ofNat (64-b) ||| (next >>> 1) >>> UInt64.ofNat (63-c)).toNat =
        window (value ws) (64*ws.length-s.consumed-b) b := by
  intro c next t
  have width : c = b - s.left := rfl
  obtain ⟨pos,left64,word⟩ := aligned
  have one : next >>> 1 = next >>> UInt64.ofNat 1 := rfl
  refine ⟨⟨by simp only [t]; omega,by simp only [t]; omega,?_⟩,by simp only [consumed,t]; omega,?_⟩
  · simp only [t]
    rw [toNat_shiftLeft_lt _ (by omega)]
    congr 3; omega
  · apply Nat.eq_of_testBit_eq
    intro j
    rw [UInt64.toNat_or,Nat.testBit_or,one,toNat_shiftRight_lt _ (by omega),toNat_shiftRight_lt _ (by omega),
      toNat_shiftRight_lt _ (by omega),Nat.div_div_eq_div_mul,← Nat.pow_add,Nat.testBit_div_two_pow,
      Nat.testBit_div_two_pow,testBit_unread ws s ⟨pos,left64,word⟩,testBit_window]
    simp only [consumed] at bound ⊢
    by_cases fromNext : j < c
    · rw [testBit_value_word ws (q:=s.p+1) (r:=64-c+j) (by omega) (by omega) (by omega)]
      have skip : ¬ 64-s.left ≤ j+(64-b) := by omega
      have inside : j < b := by omega
      simp only [skip,inside,decide_false,decide_true,Bool.and_false,Bool.false_and,Bool.false_or,
        Bool.true_and]
      congr 1; omega
    · by_cases inside : j < b
      · rw [testBit_value_word ws (q:=s.p) (r:=j+s.left-b) (by omega) (by omega) (by omega),
          testBit_word_high next (by omega)]
        have low : j+(64-b) < 64 := by omega
        have high : 64-s.left ≤ j+(64-b) := by omega
        simp only [low,high,inside,decide_true,Bool.true_and,Bool.or_false]
        congr 1; omega
      · rw [testBit_word_high next (by omega)]
        have high : ¬ j+(64-b) < 64 := by omega
        simp [high,inside]

end Reader

end WordStream
