import Mathlib
import Bcachefs.Util.Printbuf

namespace Bcachefs

section Primitives

variable {out : Printbuf}

theorem printbufClampPos_of_inside (inside : out.size ≠ 0 → out.pos < out.size) : printbufClampPos out = out := by
  unfold printbufClampPos
  rw [if_neg]
  omega

theorem printbufRemainingSize_of_inside (inside : out.size ≠ 0 → out.pos < out.size) :
    printbufRemainingSize out = (out.size - out.pos,out) := by
  rw [printbufRemainingSize,printbufClampPos_of_inside inside]

theorem printbufRemaining_of_inside (inside : out.size ≠ 0 → out.pos < out.size) :
    printbufRemaining out = (out.size - out.pos - 1,out) := by
  unfold printbufRemaining
  split
  · rw [printbufRemainingSize_of_inside inside]
  · have empty : out.size = 0 := by omega
    rw [empty,Nat.zero_sub,Nat.zero_sub]

theorem printbufNulTerminateReserved_of_lt (inside : out.pos < out.size) :
    printbufNulTerminateReserved out = { out with buf := out.buf.set out.pos '\x00' } := by
  rw [printbufNulTerminateReserved,printbufClampPos_of_inside (fun _ => inside),if_pos (by omega)]

theorem bch2PrintbufMakeRoom_spec (out : Printbuf) (extra : Nat) (inside : out.pos ≤ out.size) :
    ∃ tail, bch2PrintbufMakeRoom out extra = { out with buf := out.buf ++ tail } ∧
      out.pos + extra + 1 ≤ out.size + tail.length := by
  unfold bch2PrintbufMakeRoom
  dsimp only
  split
  · exact ⟨[],by simp,by simpa using ‹_›⟩
  · refine ⟨_,rfl,?_⟩
    have grown := le_roundupPowOfTwo (out.size + (extra + 1))
    simp only [List.length_replicate]
    rw [Nat.add_sub_cancel' (le_trans (Nat.le_add_right _ _) grown)]
    omega

theorem printbufPutChars_spec (out : Printbuf) (l : List Char) :
    ∃ buf, printbufPutChars out l = { out with buf := buf, pos := out.pos + l.length } ∧ buf.length = out.size := by
  induction l generalizing out with
  | nil => exact ⟨out.buf,rfl,rfl⟩
  | cons c rest ih =>
    obtain ⟨buf,eq,length⟩ := ih { out with buf := out.buf.set out.pos c, pos := out.pos + 1 }
    refine ⟨buf,?_,?_⟩
    · rw [printbufPutChars,eq,List.length_cons]
      simp only [Nat.add_assoc,Nat.add_comm 1]
    · rw [length]
      exact List.length_set

theorem nulTerminateReserved_put (out : Printbuf) (buf : List Char) (p : Nat) (inside : p < buf.length) :
    printbufNulTerminateReserved { out with buf := buf, pos := p } = { out with buf := buf.set p '\x00', pos := p } :=
  printbufNulTerminateReserved_of_lt (show p < buf.length from inside)

theorem getElem?_set_nul (buf : List Char) {p : Nat} (inside : p < buf.length) :
    (buf.set p '\x00')[p]? = some '\x00' := by
  rw [List.getElem?_set_self inside]

theorem prtChars_spec (out : Printbuf) (c : Char) (n : Nat) (inside : out.pos ≤ out.size) :
    ∃ buf, prtChars out c n = { out with buf := buf, pos := out.pos + n } ∧ out.pos + n < buf.length ∧
      buf[out.pos + n]? = some '\x00' := by
  obtain ⟨tail,room,fits⟩ := bch2PrintbufMakeRoom_spec out n inside
  have grownInside : ({ out with buf := out.buf ++ tail } : Printbuf).size ≠ 0 →
      out.pos < ({ out with buf := out.buf ++ tail } : Printbuf).size := by
    intro _
    simp only [Printbuf.size,List.length_append] at fits ⊢
    omega
  obtain ⟨buf,put,length⟩ := printbufPutChars_spec { out with buf := out.buf ++ tail } (List.replicate n c)
  have written : n ≤ ({ out with buf := out.buf ++ tail } : Printbuf).size - out.pos - 1 := by
    simp only [Printbuf.size,List.length_append] at fits ⊢
    omega
  have after : out.pos + n < buf.length := by
    rw [length]
    simp only [Printbuf.size,List.length_append] at fits ⊢
    omega
  refine ⟨buf.set (out.pos + n) '\x00',?_,by rw [List.length_set]; exact after,getElem?_set_nul buf after⟩
  rw [prtChars,rawPrtCharsReserved,room,printbufRemaining_of_inside grownInside]
  dsimp only
  rw [Nat.min_eq_left written,put,List.length_replicate,nulTerminateReserved_put _ _ _ after]

theorem printbufRemaining_makeRoom (out : Printbuf) (extra : Nat) (inside : out.pos ≤ out.size) :
    ∃ tail, bch2PrintbufMakeRoom out extra = { out with buf := out.buf ++ tail } ∧
      printbufRemaining { out with buf := out.buf ++ tail } = (out.size + tail.length - out.pos - 1,{ out with buf := out.buf ++ tail }) ∧
      out.pos + extra < out.size + tail.length := by
  obtain ⟨tail,room,fits⟩ := bch2PrintbufMakeRoom_spec out extra inside
  refine ⟨tail,room,?_,by omega⟩
  rw [printbufRemaining_of_inside (by simp only [Printbuf.size,List.length_append] at fits ⊢; omega)]
  simp only [Printbuf.size,List.length_append]

theorem printbufAdvancePos_nul (out : Printbuf) (buf : List Char) (nr : Nat) (room : out.pos + nr < buf.length) :
    printbufNulTerminateReserved (printbufAdvancePos { out with buf := buf } nr) =
      { out with buf := buf.set (out.pos + nr) '\x00', pos := out.pos + nr } := by
  have remaining : printbufRemaining { out with buf := buf } = (buf.length - out.pos - 1,{ out with buf := buf }) :=
    printbufRemaining_of_inside (fun _ => show out.pos < buf.length by omega)
  rw [printbufAdvancePos,remaining]
  dsimp only
  rw [Nat.min_eq_left (by omega),nulTerminateReserved_put _ _ _ room]

theorem ite_buf_length (out : Printbuf) (c : Prop) [Decidable c] (f : List Char → List Char)
    (keeps : (f out.buf).length = out.buf.length) :
    ∃ buf, (if c then { out with buf := f out.buf } else out) = { out with buf := buf } ∧ buf.length = out.buf.length := by
  by_cases h : c
  · exact ⟨f out.buf,if_pos h,keeps⟩
  · exact ⟨out.buf,if_neg h,rfl⟩

theorem printbufInsertSpaces_spec (out : Printbuf) (pos nr : Nat) (inside : out.pos ≤ out.size) :
    ∃ buf, printbufInsertSpaces out pos nr = { out with buf := buf, pos := out.pos + nr } ∧ out.pos + nr < buf.length ∧
      buf[out.pos + nr]? = some '\x00' := by
  obtain ⟨tail,room,fits⟩ := bch2PrintbufMakeRoom_spec out nr inside
  unfold printbufInsertSpaces
  dsimp only
  rw [room]
  obtain ⟨moved,moveEq,moveLength⟩ := ite_buf_length { out with buf := out.buf ++ tail }
    (pos + nr < ({ out with buf := out.buf ++ tail } : Printbuf).size)
    (fun b => (Bytes.memmove b (pos + nr) pos (min ((out.pos + 2^32 - pos) % 2^32)
      (({ out with buf := out.buf ++ tail } : Printbuf).size - 1 - pos - nr))).getD b) (Bytes.length_memmove_getD _ _ _ _)
  rw [moveEq]
  obtain ⟨filled,fillEq,fillLength⟩ := ite_buf_length { out with buf := moved }
    (pos < ({ out with buf := moved } : Printbuf).size)
    (fun b => (Bytes.memset b pos ' ' (min nr (({ out with buf := moved } : Printbuf).size - pos))).getD b)
    (Bytes.length_memset_getD _ _ _ _)
  have after : out.pos + nr < filled.length := by
    simp only [List.length_append] at moveLength fillLength
    simp only [Printbuf.size] at fits
    omega
  refine ⟨filled.set (out.pos + nr) '\x00',?_,by rw [List.length_set]; exact after,getElem?_set_nul filled after⟩
  simp only at fillEq
  rw [fillEq,printbufAdvancePos_nul _ _ _ after]

theorem prtChar_spec (out : Printbuf) (c : Char) (inside : out.pos ≤ out.size) :
    ∃ buf, prtChar out c = { out with buf := buf, pos := out.pos + 1 } ∧ out.pos + 1 < buf.length ∧
      buf[out.pos + 1]? = some '\x00' := by
  obtain ⟨tail,room,remaining,fits⟩ := printbufRemaining_makeRoom out 2 inside
  obtain ⟨buf,put,length⟩ := printbufPutChars_spec { out with buf := out.buf ++ tail } [c]
  have after : out.pos + 1 < buf.length := by
    rw [length]
    simp only [Printbuf.size,List.length_append] at fits ⊢
    omega
  refine ⟨buf.set (out.pos + 1) '\x00',?_,by rw [List.length_set]; exact after,getElem?_set_nul buf after⟩
  rw [prtChar,room,rawPrtCharReserved,remaining]
  dsimp only
  rw [if_pos (by omega),put]
  exact nulTerminateReserved_put _ _ _ after

theorem prtBytes_spec (out : Printbuf) (b : List Char) (inside : out.pos ≤ out.size) :
    ∃ buf, prtBytes out b = { out with buf := buf, pos := out.pos + b.length } ∧ out.pos + b.length < buf.length ∧
      buf[out.pos + b.length]? = some '\x00' := by
  obtain ⟨tail,room,remaining,fits⟩ := printbufRemaining_makeRoom out b.length inside
  obtain ⟨buf,put,length⟩ := printbufPutChars_spec { out with buf := out.buf ++ tail } b
  -- printbuf_nul_terminate makes room for the nul once more
  obtain ⟨tail2,room2,fits2⟩ := bch2PrintbufMakeRoom_spec { out with buf := buf, pos := out.pos + b.length } 1 (by
    simp only [Printbuf.size,List.length_append] at length fits ⊢
    omega)
  have after : out.pos + b.length < (buf ++ tail2).length := by
    simp only [Printbuf.size] at fits2
    rw [List.length_append]
    omega
  refine ⟨(buf ++ tail2).set (out.pos + b.length) '\x00',?_,by rw [List.length_set]; exact after,
    getElem?_set_nul _ after⟩
  rw [prtBytes,room]
  dsimp only
  rw [remaining]
  dsimp only
  rw [Nat.min_eq_left (by omega),List.take_length,put,printbufNulTerminate]
  dsimp only
  rw [room2]
  exact nulTerminateReserved_put _ _ _ after

theorem rawPrtCharReserved_of_room (out : Printbuf) (c : Char) (room : out.pos + 1 < out.size) :
    rawPrtCharReserved out c = printbufPutChars out [c] := by
  rw [rawPrtCharReserved,printbufRemaining_of_inside (fun _ => by omega)]
  exact if_pos (by omega)

theorem rawPrtCharsReserved_of_room (out : Printbuf) (c : Char) (n : Nat) (room : out.pos + n < out.size) :
    rawPrtCharsReserved out c n = printbufPutChars out (List.replicate n c) := by
  rw [rawPrtCharsReserved,printbufRemaining_of_inside (fun _ => by omega)]
  dsimp only
  rw [Nat.min_eq_left (by omega)]

theorem bch2PrtNewline_spec (out : Printbuf) (inside : out.pos ≤ out.size) :
    ∃ buf, bch2PrtNewline out =
      { out with buf := buf, pos := out.pos + 1 + out.indent, lastNewline := out.pos + 1, lastField := out.pos + 1 + out.indent, curTabstop := 0 } ∧
      out.pos + 1 + out.indent < buf.length ∧
      buf[out.pos + 1 + out.indent]? = some '\x00' := by
  obtain ⟨tail,room,fits⟩ := bch2PrintbufMakeRoom_spec out (1 + out.indent) inside
  obtain ⟨buf,put,length⟩ := printbufPutChars_spec { out with buf := out.buf ++ tail } ['\n']
  obtain ⟨buf2,put2,length2⟩ := printbufPutChars_spec { out with buf := buf, pos := out.pos + 1, lastNewline := out.pos + 1 }
    (List.replicate out.indent ' ')
  simp only [Printbuf.size,List.length_append] at fits length length2
  have after : out.pos + 1 + out.indent < buf2.length := by omega
  refine ⟨buf2.set (out.pos + 1 + out.indent) '\x00',?_,by rw [List.length_set]; exact after,getElem?_set_nul _ after⟩
  rw [bch2PrtNewline,room,rawPrtCharReserved_of_room _ _ (by simp only [Printbuf.size,List.length_append]; omega),put,
    List.length_singleton]
  dsimp only
  rw [rawPrtCharsReserved_of_room _ _ _ (by simp only [Printbuf.size]; omega),put2,List.length_replicate]
  dsimp only
  rw [printbufNulTerminateReserved_of_lt (by simp only [Printbuf.size]; omega)]

theorem printbufDropByte_spec (out : Printbuf) (n : Nat) (before : n < out.pos) (inside : out.pos < out.size)
    (nul : out.buf[out.pos]? = some '\x00') :
    ∃ buf, printbufDropByte out n = { out with buf := buf, pos := out.pos - 1 } ∧ buf.length = out.size ∧
      buf[out.pos - 1]? = some '\x00' := by
  refine ⟨_,rfl,Bytes.length_memmove_getD _ _ _ _,?_⟩
  unfold Printbuf.size at inside
  rw [Bytes.getElem?_memmove_of_mem (by omega) (by omega) (by omega) (by omega),
    show n + 1 + (out.pos - 1 - n) = out.pos by omega]
  exact nul

theorem printbufAdvancePos_of_room (out : Printbuf) (len : Nat) (room : out.pos + len < out.size) :
    printbufAdvancePos out len = { out with pos := out.pos + len } := by
  rw [printbufAdvancePos,printbufRemaining_of_inside (fun _ => by omega)]
  dsimp only
  rw [Nat.min_eq_left (by omega)]

theorem vsnprintfStr_parts (out : Printbuf) (size : Nat) (s : List Char) :
    ∃ buf, vsnprintfStr out size s = ({ out with buf := buf },s.length) ∧ buf.length = out.size := by
  unfold vsnprintfStr
  split
  · exact ⟨out.buf,rfl,rfl⟩
  · exact ⟨_,rfl,Bytes.length_memcpy_getD _ _ _⟩

theorem vsnprintfStr_of_room (out : Printbuf) (s : List Char) (room : out.pos + s.length < out.size) :
    vsnprintfStr out (out.size - out.pos) s =
      ({ out with buf := out.buf.take out.pos ++ (s ++ ['\x00']) ++ out.buf.drop (out.pos + (s ++ ['\x00']).length) },s.length) := by
  unfold Printbuf.size at room ⊢
  have whole : s.take (out.buf.length - out.pos - 1) = s := List.take_of_length_le (by omega)
  have nonzero : out.buf.length - out.pos ≠ 0 := by omega
  rw [vsnprintfStr,if_neg nonzero,whole,Bytes.memcpy_of_le (by simp only [List.length_append,List.length_singleton]; omega),
    Option.getD_some]

theorem length_printed (buf s : List Char) (p : Nat) (room : p + s.length < buf.length) :
    (buf.take p ++ (s ++ ['\x00']) ++ buf.drop (p + (s ++ ['\x00']).length)).length = buf.length := by
  simp only [List.length_append,List.length_take,List.length_drop,List.length_singleton]
  omega

theorem prtPrintfLoop_of_room (out : Printbuf) (s : List Char) (fuel : Nat) (room : out.pos + s.length < out.size) :
    prtPrintfLoop out s (fuel + 1) =
      ({ out with buf := out.buf.take out.pos ++ (s ++ ['\x00']) ++ out.buf.drop (out.pos + (s ++ ['\x00']).length) },s.length) := by
  have length := length_printed out.buf s out.pos room
  rw [prtPrintfLoop,printbufRemainingSize_of_inside (fun _ => by omega)]
  dsimp only
  rw [vsnprintfStr_of_room out s room]
  dsimp only
  rw [printbufRemaining_of_inside (fun _ => by simp only [Printbuf.size,length]; exact Nat.lt_of_le_of_lt (Nat.le_add_right _ _) room)]
  dsimp only
  rw [if_neg (by simp only [Printbuf.size,length] at room ⊢; omega)]

theorem prtPrintfLoop_spec (out : Printbuf) (s : List Char) (le : out.pos ≤ out.size)
    (inside : out.size ≠ 0 → out.pos < out.size) (written : s ≠ [] ∨ out.size ≠ 0) :
    ∃ pre post, prtPrintfLoop out s 2 = ({ out with buf := pre ++ (s ++ ['\x00']) ++ post },s.length) ∧
      pre.length = out.pos := by
  by_cases room : out.pos + s.length < out.size
  · refine ⟨_,_,prtPrintfLoop_of_room out s 1 room,?_⟩
    simp only [Printbuf.size] at le
    simp only [List.length_take]
    omega
  · obtain ⟨buf,printed,length⟩ := vsnprintfStr_parts out (out.size - out.pos) s
    have positive : 0 < s.length ∨ out.size ≠ 0 := written.imp_left List.length_pos_iff.mpr
    have bufInside : Printbuf.size { out with buf := buf } ≠ 0 → out.pos < Printbuf.size { out with buf := buf } := by
      simp only [Printbuf.size] at length inside ⊢
      rw [length]
      exact inside
    have short : Printbuf.size { out with buf := buf } - out.pos - 1 < s.length := by
      simp only [Printbuf.size] at length room inside positive ⊢
      rw [length]
      omega
    obtain ⟨tail,grown,fits⟩ := bch2PrintbufMakeRoom_spec { out with buf := buf } s.length (by
      simp only [Printbuf.size] at length le ⊢
      omega)
    simp only [Printbuf.size] at fits
    refine ⟨(buf ++ tail).take out.pos,(buf ++ tail).drop (out.pos + (s ++ ['\x00']).length),?_,?_⟩
    · rw [prtPrintfLoop,printbufRemainingSize_of_inside inside]
      dsimp only
      rw [printed]
      dsimp only
      rw [printbufRemaining_of_inside bufInside]
      dsimp only
      rw [if_pos short,grown,prtPrintfLoop_of_room _ _ _ (by simp only [Printbuf.size,List.length_append]; omega)]
    · simp only [List.length_take,List.length_append]
      omega

theorem printbufInsertSpaces_eq (out : Printbuf) (pos nr : Nat) (inside : out.pos ≤ out.size) :
    printbufInsertSpaces out pos nr = { out with buf := (printbufInsertSpaces out pos nr).buf, pos := out.pos + nr } := by
  obtain ⟨buf,inserted,-⟩ := printbufInsertSpaces_spec out pos nr inside
  rw [inserted]

theorem printbufInsertSpaces_nul (out : Printbuf) (pos nr : Nat) (inside : out.pos ≤ out.size) :
    out.pos + nr < (printbufInsertSpaces out pos nr).buf.length ∧
      (printbufInsertSpaces out pos nr).buf[out.pos + nr]? = some '\x00' := by
  obtain ⟨buf,inserted,room,nul⟩ := printbufInsertSpaces_spec out pos nr inside
  rw [inserted]
  exact ⟨room,nul⟩

theorem printbufNulTerminate_spec (out : Printbuf) (inside : out.pos ≤ out.size) :
    ∃ buf, printbufNulTerminate out = { out with buf := buf } ∧ out.pos < buf.length ∧ buf[out.pos]? = some '\x00' := by
  obtain ⟨tail,room,fits⟩ := bch2PrintbufMakeRoom_spec out 1 inside
  have after : out.pos < (out.buf ++ tail).length := by
    simp only [Printbuf.size,List.length_append] at fits ⊢
    omega
  refine ⟨(out.buf ++ tail).set out.pos '\x00',?_,by rw [List.length_set]; exact after,getElem?_set_nul _ after⟩
  rw [printbufNulTerminate,room,printbufNulTerminateReserved_of_lt after]

theorem bch2PrtPrintfStr_spec (out : Printbuf) (s : List Char) (le : out.pos ≤ out.size)
    (inside : out.size ≠ 0 → out.pos < out.size) (written : cString s ≠ [] ∨ out.size ≠ 0) :
    ∃ pre post, bch2PrtPrintfStr out s =
      printbufDoIndent { out with buf := pre ++ (cString s ++ ['\x00']) ++ post, pos := out.pos + (cString s).length } out.pos ∧
      pre.length = out.pos := by
  obtain ⟨pre,post,looped,prefixLength⟩ := prtPrintfLoop_spec out (cString s) le inside written
  refine ⟨pre,post,?_,prefixLength⟩
  rw [bch2PrtPrintfStr,looped]
  dsimp only
  rw [printbufAdvancePos_of_room _ _ (by simp only [Printbuf.size,List.length_append,List.length_singleton]; omega)]

theorem bch2PrtPrintfStr_of_unwritten (out : Printbuf) (s : List Char) (empty : cString s = [])
    (unallocated : out.size = 0) : bch2PrtPrintfStr out s = printbufDoIndent out out.pos := by
  have remaining : printbufRemaining out = (0,out) := by rw [printbufRemaining,if_neg (by omega)]
  have remainingSize : printbufRemainingSize out = (0,out) := by
    rw [printbufRemainingSize_of_inside (by omega),unallocated,Nat.zero_sub]
  rw [bch2PrtPrintfStr,empty,prtPrintfLoop,remainingSize]
  dsimp only
  rw [vsnprintfStr,if_pos rfl]
  dsimp only
  rw [remaining]
  dsimp only [List.length_nil]
  rw [if_neg (Nat.lt_irrefl _)]
  dsimp only
  rw [printbufAdvancePos,remaining]
  rfl

theorem getElem?_printed (pre s post : List Char) : (pre ++ (s ++ ['\x00']) ++ post)[pre.length + s.length]? = some '\x00' := by
  rw [List.append_assoc,List.getElem?_append_right (by omega),Nat.add_sub_cancel_left,List.append_assoc,
    List.getElem?_append_right (by omega),Nat.sub_self]
  rfl

theorem length_printed_gt (pre s post : List Char) : pre.length + s.length < (pre ++ (s ++ ['\x00']) ++ post).length := by
  simp only [List.length_append,List.length_singleton]
  omega

end Primitives

section Invariant

variable {out : Printbuf}

-- What every call keeps: last_newline stays behind last_field and pos, and once the
-- buffer is allocated pos lies in it, on a nul.
structure PrintbufWf (out : Printbuf) : Prop where
  newlineLeField : out.lastNewline ≤ out.lastField
  newlineLePos : out.lastNewline ≤ out.pos
  posLeSize : out.pos ≤ out.size
  terminated : out.size ≠ 0 → out.buf[out.pos]? = some '\x00'

theorem PrintbufWf.inside (wf : PrintbufWf out) (allocated : out.size ≠ 0) : out.pos < out.size := by
  have nul := wf.terminated allocated
  by_contra outside
  rw [List.getElem?_eq_none (by unfold Printbuf.size at outside; omega)] at nul
  cases nul

theorem PrintbufWf.allocated (wf : PrintbufWf out) {n : Nat} (before : n < out.pos) : out.size ≠ 0 := by
  have := wf.posLeSize
  omega

theorem PrintbufWf.of_same (wf : PrintbufWf out) {out' : Printbuf} (buf : out'.buf = out.buf) (pos : out'.pos = out.pos)
    (newline : out'.lastNewline = out.lastNewline) (field : out'.lastField = out.lastField) : PrintbufWf out' := by
  obtain ⟨fieldLe,posLe,sizeLe,nul⟩ := wf
  refine ⟨?_,?_,?_,?_⟩
  · rw [newline,field]
    exact fieldLe
  · rw [newline,pos]
    exact posLe
  · rw [Printbuf.size,buf,pos]
    exact sizeLe
  · rw [Printbuf.size,buf,pos]
    exact nul

theorem PrintbufWf.of_written (wf : PrintbufWf out) (buf : List Char) (p : Nat) (after : out.lastNewline ≤ p)
    (inside : p < buf.length) (nul : buf[p]? = some '\x00') : PrintbufWf { out with buf := buf, pos := p } :=
  ⟨wf.newlineLeField,after,Nat.le_of_lt inside,fun _ => nul⟩

theorem PRINTBUF_wf : PrintbufWf PRINTBUF := ⟨le_refl 0,le_refl 0,le_refl 0,fun empty => absurd rfl empty⟩

theorem prtChar_wf (wf : PrintbufWf out) (c : Char) : PrintbufWf (prtChar out c) := by
  obtain ⟨buf,eq,room,nul⟩ := prtChar_spec out c wf.posLeSize
  rw [eq]
  exact wf.of_written buf _ (Nat.le_succ_of_le wf.newlineLePos) room nul

theorem prtChars_wf (wf : PrintbufWf out) (c : Char) (n : Nat) : PrintbufWf (prtChars out c n) := by
  obtain ⟨buf,eq,room,nul⟩ := prtChars_spec out c n wf.posLeSize
  rw [eq]
  exact wf.of_written buf _ (Nat.le_trans wf.newlineLePos (Nat.le_add_right _ _)) room nul

theorem prtStr_wf (wf : PrintbufWf out) (str : List Char) : PrintbufWf (prtStr out str) := by
  obtain ⟨buf,eq,room,nul⟩ := prtBytes_spec out (cString str) wf.posLeSize
  rw [prtStr,eq]
  exact wf.of_written buf _ (Nat.le_trans wf.newlineLePos (Nat.le_add_right _ _)) room nul

theorem bch2PrtNewline_wf (wf : PrintbufWf out) : PrintbufWf (bch2PrtNewline out) := by
  obtain ⟨buf,eq,room,nul⟩ := bch2PrtNewline_spec out wf.posLeSize
  rw [eq]
  exact ⟨Nat.le_refl _ |>.trans (Nat.le_add_right _ _),Nat.le_add_right _ _,Nat.le_of_lt room,fun _ => nul⟩

theorem bch2PrintbufIndentAdd_wf (wf : PrintbufWf out) (spaces : Nat) : PrintbufWf (bch2PrintbufIndentAdd out spaces) := by
  unfold bch2PrintbufIndentAdd
  dsimp only
  generalize (if (out.indent + spaces) % 2^32 < out.indent then 0 else spaces) = added
  obtain ⟨buf,eq,room,nul⟩ := prtChars_spec { out with indent := out.indent + added } ' ' added wf.posLeSize
  rw [eq]
  exact (wf.of_written buf _ (Nat.le_trans wf.newlineLePos (Nat.le_add_right _ _)) room nul).of_same rfl rfl rfl rfl

theorem bch2PrintbufIndentAddNextline_wf (wf : PrintbufWf out) (spaces : Nat) :
    PrintbufWf (bch2PrintbufIndentAddNextline out spaces) :=
  wf.of_same rfl rfl rfl rfl

theorem bch2PrintbufIndentSub_wf (wf : PrintbufWf out) (spaces : Nat) : PrintbufWf (bch2PrintbufIndentSub out spaces) := by
  unfold bch2PrintbufIndentSub
  dsimp only
  generalize taken : (if out.indent < spaces then out.indent else spaces) = removed
  have bounded : removed ≤ out.indent := by
    rw [← taken]
    split <;> omega
  have kept : PrintbufWf (if out.lastNewline + out.indent = out.pos then printbufNulTerminate { out with pos := out.pos - removed } else out) := by
    split
    · obtain ⟨buf,eq,room,nul⟩ := printbufNulTerminate_spec { out with pos := out.pos - removed } (by
        have := wf.posLeSize
        simp only [Printbuf.size] at this ⊢
        omega)
      rw [eq]
      exact wf.of_written buf _ (by dsimp only; omega) room nul
    · exact wf
  generalize (if out.lastNewline + out.indent = out.pos then printbufNulTerminate { out with pos := out.pos - removed }
    else out) = middle at kept ⊢
  split
  · exact kept.of_same rfl rfl rfl rfl
  · exact kept.of_same rfl rfl rfl rfl

theorem printbuf_indent_sub_leaves_field_past_pos :
    let out := printbufRun { PRINTBUF with hasIndentOrTabstops := true } [.indentAdd 2,.newline,.indentSub 2]
    out.pos = 3 ∧ out.lastField = 5 := by
  decide

theorem bch2PrintbufTabstopPush_wf (wf : PrintbufWf out) (spaces : Nat) : PrintbufWf (bch2PrintbufTabstopPush out spaces).1 := by
  unfold bch2PrintbufTabstopPush
  dsimp only
  split
  · exact wf
  · exact wf.of_same rfl rfl rfl rfl

theorem bch2PrintbufTabstopPop_wf (wf : PrintbufWf out) : PrintbufWf (bch2PrintbufTabstopPop out) := by
  unfold bch2PrintbufTabstopPop
  split
  · exact wf.of_same rfl rfl rfl rfl
  · exact wf

theorem PrintbufWf.endField (wf : PrintbufWf out) (next : Nat) :
    PrintbufWf { out with lastField := out.pos, curTabstop := next } :=
  ⟨wf.newlineLePos,wf.newlineLePos,wf.posLeSize,wf.terminated⟩

theorem bch2PrtTab_wf (wf : PrintbufWf out) : PrintbufWf (bch2PrtTab out) := by
  unfold bch2PrtTab rawPrtTab
  split
  · exact wf
  · exact (prtChars_wf wf _ _).endField _

theorem bch2PrtTabRjust_wf (wf : PrintbufWf out) : PrintbufWf (bch2PrtTabRjust out) := by
  unfold bch2PrtTabRjust rawPrtTabRjust
  split
  · exact wf
  · dsimp only
    split
    · obtain ⟨buf,eq,room,nul⟩ := printbufInsertSpaces_spec out out.lastField (((curTabstop out : Int) - printbufLinelen out).toNat) wf.posLeSize
      rw [eq]
      exact (wf.of_written buf _ (Nat.le_trans wf.newlineLePos (Nat.le_add_right _ _)) room nul).endField _
    · exact wf.endField _

end Invariant

section DoIndent

variable {out : Printbuf}

theorem le_memscan (buf : List Char) (p : Nat) (c : Char) (size : Nat) : p ≤ memscan buf p c size := by
  unfold memscan
  split <;> omega

theorem memscan_le (buf : List Char) (p : Nat) (c : Char) (size : Nat) : memscan buf p c size ≤ p + size := by
  unfold memscan
  split
  · rename_i i found
    have bound := (List.findIdx?_eq_some_iff_getElem.mp found).1
    simp only [List.length_take] at bound
    omega
  · omega

theorem printbufDoIndentScan_mem (out : Printbuf) (pos : Nat) (le : pos ≤ out.pos) :
    pos ≤ printbufDoIndentScan out pos ∧ printbufDoIndentScan out pos ≤ out.pos := by
  have newline := le_memscan out.buf pos '\n' (out.pos - pos)
  have newlineLe := memscan_le out.buf pos '\n' (out.pos - pos)
  unfold printbufDoIndentScan
  dsimp only
  split
  · have rjust := le_memscan out.buf pos '\r' (out.pos - pos)
    have tab := le_memscan out.buf pos '\t' (out.pos - pos)
    omega
  · omega

-- The loop of __printbuf_do_indent works on [pos, out->pos): pos stays between
-- last_newline and out->pos.
structure DoIndentInv (out : Printbuf) (pos : Nat) : Prop where
  wf : PrintbufWf out
  newlineLe : out.lastNewline ≤ pos
  le : pos ≤ out.pos

theorem DoIndentInv.of_landed (p : Nat) (field : out.lastField = p) (after : out.lastNewline ≤ p) (le : p ≤ out.pos)
    (inside : out.pos < out.buf.length) (nul : out.buf[out.pos]? = some '\x00') : DoIndentInv out p :=
  ⟨⟨field ▸ after,Nat.le_trans after le,Nat.le_of_lt inside,fun _ => nul⟩,after,le⟩

-- case '\n': the indent goes in after the newline, which becomes last_newline.
theorem doIndentNewline_inv (wf : PrintbufWf out) (n : Nat) (before : n < out.pos) :
    DoIndentInv (doIndentNewline out n).1 (doIndentNewline out n).2 ∧
      (doIndentNewline out n).1.pos - (doIndentNewline out n).2 = out.pos - 1 - n := by
  obtain ⟨room,nul⟩ := printbufInsertSpaces_nul { out with lastNewline := n + 1 } (n + 1) out.indent wf.posLeSize
  unfold doIndentNewline
  dsimp only
  rw [printbufInsertSpaces_eq { out with lastNewline := n + 1 } (n + 1) out.indent wf.posLeSize]
  dsimp only at room nul ⊢
  rw [Nat.min_eq_left (show n + 1 + out.indent ≤ out.pos + out.indent by omega)]
  refine ⟨DoIndentInv.of_landed _ rfl ?_ ?_ ?_ ?_,by omega⟩
  · dsimp only
    omega
  · dsimp only
    omega
  · dsimp only
    exact room
  · dsimp only
    exact nul

theorem doIndentInv_dropped (wf : PrintbufWf out) (n : Nat) (after : out.lastNewline ≤ n) (before : n < out.pos)
    (buf : List Char) (length : buf.length = out.size) (nul : buf[out.pos - 1]? = some '\x00') (next : Nat) :
    DoIndentInv { out with buf := buf, pos := out.pos - 1, lastField := n, curTabstop := next } n := by
  have allocated := wf.allocated before
  have inside := wf.inside allocated
  refine DoIndentInv.of_landed _ rfl after (by dsimp only; omega) ?_ nul
  simp only [Printbuf.size,length] at inside ⊢
  omega

-- case '\r': the text since last_field moves right by pad.
theorem doIndentRjust_inv (wf : PrintbufWf out) (n : Nat) (after : out.lastNewline ≤ n) (before : n < out.pos) :
    DoIndentInv (doIndentRjust out n).1 (doIndentRjust out n).2 ∧
      (doIndentRjust out n).1.pos - (doIndentRjust out n).2 = out.pos - 1 - n := by
  have allocated := wf.allocated before
  obtain ⟨buf,dropped,length,nul⟩ := printbufDropByte_spec out n before (wf.inside allocated) (wf.terminated allocated)
  have inside : out.pos - 1 ≤ Printbuf.size { out with buf := buf, pos := out.pos - 1 } := by
    have := wf.inside allocated
    simp only [Printbuf.size,length] at this ⊢
    omega
  unfold doIndentRjust
  rw [dropped]
  dsimp only
  split
  · rw [printbufInsertSpaces_eq { out with buf := buf, pos := out.pos - 1 } _ _ inside]
    refine ⟨DoIndentInv.of_landed _ rfl ?_ ?_ ?_ ?_,?_⟩
    all_goals dsimp only
    · omega
    · omega
    · exact (printbufInsertSpaces_nul { out with buf := buf, pos := out.pos - 1 } _ _ inside).1
    · exact (printbufInsertSpaces_nul { out with buf := buf, pos := out.pos - 1 } _ _ inside).2
    · omega
  · exact ⟨doIndentInv_dropped wf n after before buf length nul _,rfl⟩

theorem PrintbufWf.tabReplaced (wf : PrintbufWf out) (n : Nat) :
    out.pos ≤ Printbuf.size { out with buf := out.buf.set n ' ' } := by
  simp only [Printbuf.size,List.length_set]
  exact wf.posLeSize

-- case '\t': the tab becomes a space and pad - 1 more go in after it.
theorem doIndentTab_inv (wf : PrintbufWf out) (n : Nat) (after : out.lastNewline ≤ n) (before : n < out.pos) :
    DoIndentInv (doIndentTab out n).1 (doIndentTab out n).2 ∧
      (doIndentTab out n).1.pos - (doIndentTab out n).2 = out.pos - 1 - n := by
  have allocated := wf.allocated before
  have inside := wf.tabReplaced n
  unfold doIndentTab
  dsimp only
  split
  · rename_i positive
    rw [printbufInsertSpaces_eq { out with buf := out.buf.set n ' ' } _ _ inside]
    refine ⟨DoIndentInv.of_landed _ rfl ?_ ?_ ?_ ?_,?_⟩
    all_goals dsimp only
    · omega
    · omega
    · exact (printbufInsertSpaces_nul { out with buf := out.buf.set n ' ' } _ _ inside).1
    · exact (printbufInsertSpaces_nul { out with buf := out.buf.set n ' ' } _ _ inside).2
    · omega
  · obtain ⟨buf,dropped,length,nul⟩ := printbufDropByte_spec out n before (wf.inside allocated) (wf.terminated allocated)
    rw [dropped]
    exact ⟨doIndentInv_dropped wf n after before buf length nul _,rfl⟩

-- One pass either breaks or keeps the invariant and shortens out->pos - pos.
theorem printbufDoIndentStep_inv {pos : Nat} (inv : DoIndentInv out pos) {next : Printbuf × Nat}
    (stepped : printbufDoIndentStep out pos = some next) : DoIndentInv next.1 next.2 ∧ next.1.pos - next.2 < out.pos - pos := by
  obtain ⟨first,last⟩ := printbufDoIndentScan_mem out pos inv.le
  unfold printbufDoIndentStep at stepped
  dsimp only at stepped
  split at stepped
  · cases stepped
  · have before : printbufDoIndentScan out pos < out.pos := by omega
    have after : out.lastNewline ≤ printbufDoIndentScan out pos := Nat.le_trans inv.newlineLe first
    split at stepped
    · rw [← Option.some.inj stepped]
      have case := doIndentNewline_inv inv.wf _ before
      exact ⟨case.1,by omega⟩
    · rw [← Option.some.inj stepped]
      have case := doIndentRjust_inv inv.wf _ after before
      exact ⟨case.1,by omega⟩
    · rw [← Option.some.inj stepped]
      have case := doIndentTab_inv inv.wf _ after before
      exact ⟨case.1,by omega⟩
    · cases stepped

theorem printbufDoIndentLoop_wf {pos : Nat} (inv : DoIndentInv out pos) (fuel : Nat) :
    PrintbufWf (printbufDoIndentLoop out pos fuel) := by
  induction fuel generalizing out pos with
  | zero => exact inv.wf
  | succ fuel ih =>
    rw [printbufDoIndentLoop]
    cases stepped : printbufDoIndentStep out pos with
    | none => exact inv.wf
    | some next =>
      obtain ⟨out',pos'⟩ := next
      exact ih (printbufDoIndentStep_inv inv stepped).1

theorem printbufDoIndentLoop_enough {pos : Nat} (inv : DoIndentInv out pos) (fuel : Nat) (enough : out.pos - pos < fuel)
    (more : Nat) (le : fuel ≤ more) : printbufDoIndentLoop out pos more = printbufDoIndentLoop out pos fuel := by
  induction fuel generalizing out pos more with
  | zero => omega
  | succ fuel ih =>
    obtain ⟨more,rfl⟩ : ∃ m, more = m + 1 := ⟨more - 1,by omega⟩
    rw [printbufDoIndentLoop,printbufDoIndentLoop]
    cases stepped : printbufDoIndentStep out pos with
    | none => rfl
    | some next =>
      obtain ⟨out',pos'⟩ := next
      have step := printbufDoIndentStep_inv inv stepped
      exact ih step.1 (by omega) more (by omega)

theorem printbufDoIndent_wf {pos : Nat} (inv : DoIndentInv out pos) : PrintbufWf (printbufDoIndent out pos) := by
  unfold printbufDoIndent rawPrintbufDoIndent
  split
  · exact printbufDoIndentLoop_wf inv _
  · exact inv.wf

theorem bch2PrtPrintfStr_wf (wf : PrintbufWf out) (s : List Char) : PrintbufWf (bch2PrtPrintfStr out s) := by
  by_cases written : cString s ≠ [] ∨ out.size ≠ 0
  · obtain ⟨pre,post,printed,prefixLength⟩ := bch2PrtPrintfStr_spec out s wf.posLeSize wf.inside written
    rw [printed]
    apply printbufDoIndent_wf
    have room := length_printed_gt pre (cString s) post
    have nul := getElem?_printed pre (cString s) post
    rw [prefixLength] at room nul
    exact ⟨wf.of_written _ _ (Nat.le_trans wf.newlineLePos (Nat.le_add_right _ _)) room nul,wf.newlineLePos,
      Nat.le_add_right _ _⟩
  · obtain ⟨empty,unallocated⟩ : cString s = [] ∧ out.size = 0 := by
      simpa only [not_or,not_not] using written
    rw [bch2PrtPrintfStr_of_unwritten out s empty unallocated]
    exact printbufDoIndent_wf ⟨wf,wf.newlineLePos,Nat.le_refl _⟩

theorem printbufApply_wf (wf : PrintbufWf out) (op : PrintbufOp) : PrintbufWf (printbufApply out op) := by
  cases op with
  | printf s => exact bch2PrtPrintfStr_wf wf s
  | str s => exact prtStr_wf wf s
  | char c => exact prtChar_wf wf c
  | chars c n => exact prtChars_wf wf c n
  | newline => exact bch2PrtNewline_wf wf
  | indentAdd spaces => exact bch2PrintbufIndentAdd_wf wf spaces
  | indentAddNextline spaces => exact bch2PrintbufIndentAddNextline_wf wf spaces
  | indentSub spaces => exact bch2PrintbufIndentSub_wf wf spaces
  | tabstopPush spaces => exact bch2PrintbufTabstopPush_wf wf spaces
  | tabstopPop => exact bch2PrintbufTabstopPop_wf wf
  | tab => exact bch2PrtTab_wf wf
  | tabRjust => exact bch2PrtTabRjust_wf wf

theorem printbufRun_wf (wf : PrintbufWf out) (ops : List PrintbufOp) : PrintbufWf (printbufRun out ops) := by
  induction ops generalizing out with
  | nil => exact wf
  | cons op rest ih => exact ih (printbufApply_wf wf op)

end DoIndent

section Tabs

variable {out : Printbuf}

theorem memscan_zero (buf : List Char) (p : Nat) (c : Char) : memscan buf p c 0 = p := by
  simp [memscan]

theorem memscan_one (buf : List Char) (p : Nat) (c x : Char) (at_ : buf[p]? = some x) :
    memscan buf p c 1 = if x = c then p else p + 1 := by
  obtain ⟨inside,rfl⟩ := List.getElem?_eq_some_iff.mp at_
  unfold memscan
  rw [List.drop_eq_getElem_cons inside,List.take_succ_cons,List.take_zero,List.findIdx?_cons]
  by_cases same : buf[p] = c
  · simp [same]
  · simp [same]

theorem printbufDoIndentStep_at_end (out : Printbuf) : printbufDoIndentStep out out.pos = none := by
  have scan : printbufDoIndentScan out out.pos = out.pos := by
    unfold printbufDoIndentScan
    simp only [Nat.sub_self,memscan_zero,Nat.min_self,ite_self]
  unfold printbufDoIndentStep
  rw [scan,if_pos rfl]

theorem doIndentTab_field (out : Printbuf) (n : Nat) :
    (doIndentTab out n).2 = n + ((curTabstop out : Int) - rawPrintbufLinelen out n - 1).toNat := by
  unfold doIndentTab
  dsimp only
  split
  · rfl
  · rename_i short
    rw [Int.toNat_eq_zero.mpr (by omega)]
    rfl

theorem doIndentTab_lastNewline (wf : PrintbufWf out) (n : Nat) (before : n < out.pos) :
    (doIndentTab out n).1.lastNewline = out.lastNewline := by
  have allocated := wf.allocated before
  have inside := wf.tabReplaced n
  unfold doIndentTab
  dsimp only
  split
  · rw [printbufInsertSpaces_eq { out with buf := out.buf.set n ' ' } _ _ inside]
  · obtain ⟨buf,dropped,-⟩ := printbufDropByte_spec out n before (wf.inside allocated) (wf.terminated allocated)
    rw [dropped]

theorem printbufDoIndent_last_tab (p : Nat) (inv : DoIndentInv out p) (written : out.pos = p + 1)
    (tabAt : out.buf[p]? = some '\t') (flag : out.hasIndentOrTabstops = true)
    (unsuppressed : out.suppressIndentTabstopHandling = false) (current : curTabstop out ≠ 0) :
    printbufDoIndent out p = (doIndentTab out p).1 ∧ (doIndentTab out p).1.pos = (doIndentTab out p).2 := by
  have scan : printbufDoIndentScan out p = p := by
    unfold printbufDoIndentScan
    rw [if_pos current,written,Nat.add_sub_cancel_left,memscan_one _ _ _ _ tabAt,memscan_one _ _ _ _ tabAt,
      memscan_one _ _ _ _ tabAt]
    simp
  have stepped : printbufDoIndentStep out p = some (doIndentTab out p) := by
    unfold printbufDoIndentStep
    dsimp only
    rw [scan,if_neg (by omega),List.getD_eq_getElem?_getD,tabAt]
    rfl
  have case := doIndentTab_inv inv.wf p inv.newlineLe (by omega)
  have ended : (doIndentTab out p).1.pos = (doIndentTab out p).2 := by
    have := case.1.le
    have := case.2
    omega
  refine ⟨?_,ended⟩
  unfold printbufDoIndent rawPrintbufDoIndent
  rw [if_pos ⟨flag,by simp [unsuppressed]⟩,written,show p + 1 - p + 1 = 0 + 1 + 1 by omega,printbufDoIndentLoop,stepped]
  dsimp only
  rw [printbufDoIndentLoop,← ended,printbufDoIndentStep_at_end]

theorem bch2PrtTab_linelen (wf : PrintbufWf out) (current : curTabstop out ≠ 0) (ahead : printbufLinelen out < curTabstop out) :
    printbufLinelen (bch2PrtTab out) = curTabstop out := by
  obtain ⟨buf,padded,-⟩ := prtChars_spec out ' ' (max 0 ((curTabstop out : Int) - printbufLinelen out)).toNat wf.posLeSize
  unfold bch2PrtTab rawPrtTab
  rw [if_neg current]
  dsimp only
  rw [padded]
  unfold printbufLinelen rawPrintbufLinelen at ahead ⊢
  dsimp only
  omega

-- The '\t' of printed text pads one space short of the tabstop: the column is T - 1.
theorem bch2PrtPrintfStr_tab_linelen (wf : PrintbufWf out) (flag : out.hasIndentOrTabstops = true)
    (unsuppressed : out.suppressIndentTabstopHandling = false) (current : curTabstop out ≠ 0)
    (ahead : printbufLinelen out < curTabstop out) :
    printbufLinelen (bch2PrtPrintfStr out ['\t']) = curTabstop out - 1 := by
  have tab : cString ['\t'] = ['\t'] := by decide
  obtain ⟨pre,post,printed,prefixLength⟩ := bch2PrtPrintfStr_spec out ['\t'] wf.posLeSize wf.inside
    (Or.inl (by rw [tab]; exact List.cons_ne_nil _ _))
  rw [tab,List.length_singleton] at printed
  have room := length_printed_gt pre ['\t'] post
  have nul := getElem?_printed pre ['\t'] post
  have tabAt : (pre ++ (['\t'] ++ ['\x00']) ++ post)[pre.length]? = some '\t' := by simp
  rw [prefixLength] at room nul tabAt
  have inv : DoIndentInv { out with buf := pre ++ (['\t'] ++ ['\x00']) ++ post, pos := out.pos + 1 } out.pos :=
    ⟨wf.of_written _ _ (Nat.le_trans wf.newlineLePos (Nat.le_add_right _ _)) room nul,wf.newlineLePos,Nat.le_add_right _ _⟩
  obtain ⟨pass,ended⟩ := printbufDoIndent_last_tab out.pos inv rfl tabAt flag unsuppressed current
  rw [printed,pass]
  unfold printbufLinelen rawPrintbufLinelen at ahead ⊢
  rw [ended,doIndentTab_field,doIndentTab_lastNewline inv.wf _ (Nat.lt_succ_self _)]
  unfold rawPrintbufLinelen
  have sameTabstop : curTabstop { out with buf := pre ++ (['\t'] ++ ['\x00']) ++ post, pos := out.pos + 1 } = curTabstop out := rfl
  dsimp only
  rw [sameTabstop]
  omega

-- "ab\tc" with a tabstop at 8: printed whole, c lands in column 7; piece by piece, in column 8.
theorem printbuf_printf_tab_one_column_short :
    (printbufRun { PRINTBUF with hasIndentOrTabstops := true } [.tabstopPush 8,.printf "ab\tc".toList]).buf.take 9 =
      "ab     c\x00".toList ∧
    (printbufRun { PRINTBUF with hasIndentOrTabstops := true } [.tabstopPush 8,.str "ab".toList,.tab,.str "c".toList]).buf.take 10 =
      "ab      c\x00".toList := by
  decide

theorem printbuf_runs_keep_order_but_tab_falls_short :
    (∀ ops : List PrintbufOp, PrintbufWf (printbufRun { PRINTBUF with hasIndentOrTabstops := true } ops)) ∧
    ∀ out : Printbuf, PrintbufWf out → out.hasIndentOrTabstops = true → out.suppressIndentTabstopHandling = false →
      curTabstop out ≠ 0 → printbufLinelen out < curTabstop out →
      printbufLinelen (bch2PrtPrintfStr out ['\t']) = curTabstop out - 1 ∧ printbufLinelen (bch2PrtTab out) = curTabstop out :=
  ⟨printbufRun_wf (show PrintbufWf { PRINTBUF with hasIndentOrTabstops := true } from PRINTBUF_wf.of_same rfl rfl rfl rfl),
    fun _ wf flag unsuppressed current ahead =>
      ⟨bch2PrtPrintfStr_tab_linelen wf flag unsuppressed current ahead,bch2PrtTab_linelen wf current ahead⟩⟩

theorem printbuf_tab_after_two_bytes :
    let out := printbufRun { PRINTBUF with hasIndentOrTabstops := true } [.tabstopPush 8,.str "ab".toList]
    out.hasIndentOrTabstops = true ∧ out.suppressIndentTabstopHandling = false ∧ curTabstop out ≠ 0 ∧
      printbufLinelen out < curTabstop out ∧
      printbufLinelen (bch2PrtPrintfStr out ['\t']) = curTabstop out - 1 ∧ printbufLinelen (bch2PrtTab out) = curTabstop out := by
  intro out
  have flag : out.hasIndentOrTabstops = true := by decide
  have unsuppressed : out.suppressIndentTabstopHandling = false := by decide
  have current : curTabstop out ≠ 0 := by decide
  have ahead : printbufLinelen out < curTabstop out := by decide
  exact ⟨flag,unsuppressed,current,ahead,
    printbuf_runs_keep_order_but_tab_falls_short.2 out (printbuf_runs_keep_order_but_tab_falls_short.1 _) flag unsuppressed current ahead⟩

end Tabs

end Bcachefs
