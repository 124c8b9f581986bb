import Mathlib
import Bcachefs.Lib.Bytes
import Bcachefs.Super.Fields

namespace Bcachefs

-- struct printbuf as PRINTBUF sets it up: heap allocated, with every allocation taken to
-- succeed. size is the length of buf. atomic, allocation_failure, overflow and the unit
-- fields are left out: no function modelled here reads them.
structure Printbuf where
  buf : List Char
  pos : Nat
  lastNewline : Nat
  lastField : Nat
  indent : Nat
  hasIndentOrTabstops : Bool
  suppressIndentTabstopHandling : Bool
  nrTabstops : Nat
  curTabstop : Nat
  tabstops : List Nat
deriving DecidableEq, Repr

def Printbuf.size (out : Printbuf) : Nat := out.buf.length

def PRINTBUF_INLINE_TABSTOPS : Nat := 6

def PRINTBUF : Printbuf := ⟨[],0,0,0,0,false,false,0,0,List.replicate PRINTBUF_INLINE_TABSTOPS 0⟩

-- A C string: the bytes before its first nul.
def cString (s : List Char) : List Char := s.takeWhile (· ≠ '\x00')

-- __printbuf_linelen, as the callers read it: an int difference.
def rawPrintbufLinelen (buf : Printbuf) (pos : Nat) : Int := (pos : Int) - buf.lastNewline

def printbufLinelen (buf : Printbuf) : Int := rawPrintbufLinelen buf buf.pos

def curTabstop (buf : Printbuf) : Nat :=
  if buf.curTabstop < buf.nrTabstops then buf.tabstops.getD buf.curTabstop 0 else 0

-- bch2_printbuf_make_room: room for extra bytes and the terminating nul. krealloc keeps
-- the contents; the bytes it adds are modelled as nul.
def bch2PrintbufMakeRoom (out : Printbuf) (extra : Nat) : Printbuf :=
  let extra := extra + 1
  if out.pos + extra ≤ out.size then out
  else
    let newSize := roundupPowOfTwo (out.size + extra)
    { out with buf := out.buf ++ List.replicate (newSize - out.size) '\x00' }

-- The WARN_ON in printbuf_remaining_size and printbuf_nul_terminate_reserved: a pos at or
-- past the end of an allocated buffer is pulled back to its last byte.
def printbufClampPos (out : Printbuf) : Printbuf :=
  if out.size ≠ 0 ∧ out.size ≤ out.pos then { out with pos := out.size - 1 } else out

def printbufRemainingSize (out : Printbuf) : Nat × Printbuf :=
  let out := printbufClampPos out
  (out.size - out.pos,out)

def printbufRemaining (out : Printbuf) : Nat × Printbuf :=
  if out.size ≠ 0 then
    let (r,out) := printbufRemainingSize out
    (r - 1,out)
  else (0,out)

def printbufNulTerminateReserved (out : Printbuf) : Printbuf :=
  let out := printbufClampPos out
  if out.size ≠ 0 then { out with buf := out.buf.set out.pos '\x00' } else out

def printbufNulTerminate (out : Printbuf) : Printbuf :=
  printbufNulTerminateReserved (bch2PrintbufMakeRoom out 1)

-- out->buf[out->pos++] = c, byte after byte.
def printbufPutChars (out : Printbuf) : List Char → Printbuf
  | [] => out
  | c :: rest => printbufPutChars { out with buf := out.buf.set out.pos c, pos := out.pos + 1 } rest

def rawPrtCharReserved (out : Printbuf) (c : Char) : Printbuf :=
  let (r,out) := printbufRemaining out
  if r ≠ 0 then printbufPutChars out [c] else out

def prtChar (out : Printbuf) (c : Char) : Printbuf :=
  printbufNulTerminateReserved (rawPrtCharReserved (bch2PrintbufMakeRoom out 2) c)

def rawPrtCharsReserved (out : Printbuf) (c : Char) (n : Nat) : Printbuf :=
  let (r,out) := printbufRemaining out
  printbufPutChars out (List.replicate (min n r) c)

def prtChars (out : Printbuf) (c : Char) (n : Nat) : Printbuf :=
  printbufNulTerminateReserved (rawPrtCharsReserved (bch2PrintbufMakeRoom out n) c n)

def prtBytes (out : Printbuf) (b : List Char) : Printbuf :=
  let out := bch2PrintbufMakeRoom out b.length
  let (r,out) := printbufRemaining out
  printbufNulTerminate (printbufPutChars out (b.take (min b.length r)))

def prtStr (out : Printbuf) (str : List Char) : Printbuf := prtBytes out (cString str)

def printbufAdvancePos (out : Printbuf) (len : Nat) : Printbuf :=
  let (r,out) := printbufRemaining out
  { out with pos := out.pos + min len r }

def printbufInsertSpaces (out : Printbuf) (pos nr : Nat) : Printbuf :=
  -- unsigned: move wraps when pos lies past out->pos
  let move := (out.pos + 2^32 - pos) % 2^32
  let out := bch2PrintbufMakeRoom out nr
  let out := if pos + nr < out.size then
      { out with buf := (Bytes.memmove out.buf (pos + nr) pos (min move (out.size - 1 - pos - nr))).getD out.buf }
    else out
  let out := if pos < out.size then
      { out with buf := (Bytes.memset out.buf pos ' ' (min nr (out.size - pos))).getD out.buf }
    else out
  printbufNulTerminateReserved (printbufAdvancePos out nr)

-- memscan: the first position in [p, p + size) holding c, or p + size.
def memscan (buf : List Char) (p : Nat) (c : Char) (size : Nat) : Nat :=
  match ((buf.drop p).take size).findIdx? (· == c) with
  | some i => p + i
  | none => p + size

-- The scan at the top of the loop of __printbuf_do_indent: the first '\n' in
-- [pos, out->pos), or with a tabstop current the first of '\n', '\r' and '\t'.
def printbufDoIndentScan (out : Printbuf) (pos : Nat) : Nat :=
  let len := out.pos - pos
  let n := memscan out.buf pos '\n' len
  if curTabstop out ≠ 0 then min n (min (memscan out.buf pos '\r' len) (memscan out.buf pos '\t' len)) else n

-- memmove(n, n + 1, out->pos - pos); --out->pos: the byte at n goes, the nul moves down.
def printbufDropByte (out : Printbuf) (n : Nat) : Printbuf :=
  { out with buf := (Bytes.memmove out.buf n (n + 1) (out.pos - n)).getD out.buf, pos := out.pos - 1 }

-- case '\n': the indent goes in after the newline.
def doIndentNewline (out : Printbuf) (n : Nat) : Printbuf × Nat :=
  let pos := n + 1
  let out := printbufInsertSpaces { out with lastNewline := pos } pos out.indent
  let pos := min (pos + out.indent) out.pos
  ({ out with lastField := pos, curTabstop := 0 },pos)

-- case '\r': the text since last_field moves right up to the tabstop.
def doIndentRjust (out : Printbuf) (n : Nat) : Printbuf × Nat :=
  let out := printbufDropByte out n
  let pad := (curTabstop out : Int) - rawPrintbufLinelen out n
  let (out,pos) := if 0 < pad then (printbufInsertSpaces out out.lastField pad.toNat,n + pad.toNat) else (out,n)
  ({ out with lastField := pos, curTabstop := out.curTabstop + 1 },pos)

-- case '\t': the tab becomes a space and pad - 1 more go in after it.
def doIndentTab (out : Printbuf) (n : Nat) : Printbuf × Nat :=
  let pad := (curTabstop out : Int) - rawPrintbufLinelen out n - 1
  let (out,pos) := if 0 < pad then
      (printbufInsertSpaces { out with buf := out.buf.set n ' ' } n (pad.toNat - 1),n + pad.toNat)
    else (printbufDropByte out n,n)
  ({ out with lastField := pos, curTabstop := out.curTabstop + 1 },pos)

-- One pass of the loop; none where it breaks. The switch has no default: the scan only
-- stops before out->pos at one of the three bytes.
def printbufDoIndentStep (out : Printbuf) (pos : Nat) : Option (Printbuf × Nat) :=
  let n := printbufDoIndentScan out pos
  if n = out.pos then none
  else match out.buf.getD n '\x00' with
    | '\n' => some (doIndentNewline out n)
    | '\r' => some (doIndentRjust out n)
    | '\t' => some (doIndentTab out n)
    | _ => none

-- Each pass shortens out->pos - pos, so that distance plus one passes reach the break.
def printbufDoIndentLoop (out : Printbuf) (pos : Nat) : Nat → Printbuf
  | 0 => out
  | fuel + 1 =>
    match printbufDoIndentStep out pos with
    | none => out
    | some (out,pos) => printbufDoIndentLoop out pos fuel

def rawPrintbufDoIndent (out : Printbuf) (pos : Nat) : Printbuf := printbufDoIndentLoop out pos (out.pos - pos + 1)

def printbufDoIndent (out : Printbuf) (pos : Nat) : Printbuf :=
  if out.hasIndentOrTabstops ∧ ¬ out.suppressIndentTabstopHandling then rawPrintbufDoIndent out pos else out

-- vsnprintf(out->buf + out->pos, size, "%s", s): at most size - 1 bytes of s, then a nul;
-- it returns the length of s.
def vsnprintfStr (out : Printbuf) (size : Nat) (s : List Char) : Printbuf × Nat :=
  if size = 0 then (out,s.length)
  else ({ out with buf := (Bytes.memcpy out.buf out.pos (s.take (size - 1) ++ ['\x00'])).getD out.buf },s.length)

-- The do-while of bch2_prt_printf: make_room(len) always succeeds here, so the second
-- pass finds room and the loop ends.
def prtPrintfLoop (out : Printbuf) (s : List Char) : Nat → Printbuf × Nat
  | 0 => (out,s.length)
  | fuel + 1 =>
    let (size,out) := printbufRemainingSize out
    let (out,len) := vsnprintfStr out size s
    let (r,out) := printbufRemaining out
    if r < len then prtPrintfLoop (bch2PrintbufMakeRoom out len) s fuel else (out,len)

-- bch2_prt_printf(out, "%s", s).
def bch2PrtPrintfStr (out : Printbuf) (s : List Char) : Printbuf :=
  let (out,len) := prtPrintfLoop out (cString s) 2
  let indentPos := out.pos
  printbufDoIndent (printbufAdvancePos out len) indentPos

def bch2PrintbufTabstopPop (buf : Printbuf) : Printbuf :=
  if buf.nrTabstops ≠ 0 then { buf with nrTabstops := buf.nrTabstops - 1 } else buf

-- Returns 0, or -EINVAL when all the inline tabstops are taken; _tabstops are u8.
def bch2PrintbufTabstopPush (buf : Printbuf) (spaces : Nat) : Printbuf × Int :=
  let prevTabstop := if buf.nrTabstops ≠ 0 then buf.tabstops.getD (buf.nrTabstops - 1) 0 else 0
  if PRINTBUF_INLINE_TABSTOPS ≤ buf.nrTabstops then (buf,-22)
  else
    let tabstops := buf.tabstops.set buf.nrTabstops ((prevTabstop + spaces) % 256)
    ({ buf with tabstops := tabstops, nrTabstops := buf.nrTabstops + 1, hasIndentOrTabstops := true },0)

-- indent is unsigned: an add that would wrap adds nothing.
def bch2PrintbufIndentAdd (buf : Printbuf) (spaces : Nat) : Printbuf :=
  let spaces := if (buf.indent + spaces) % 2^32 < buf.indent then 0 else spaces
  let buf := prtChars { buf with indent := buf.indent + spaces } ' ' spaces
  { buf with hasIndentOrTabstops := true }

def bch2PrintbufIndentAddNextline (buf : Printbuf) (spaces : Nat) : Printbuf :=
  let spaces := if (buf.indent + spaces) % 2^32 < buf.indent then 0 else spaces
  { buf with indent := buf.indent + spaces, hasIndentOrTabstops := true }

def bch2PrintbufIndentSub (buf : Printbuf) (spaces : Nat) : Printbuf :=
  let spaces := if buf.indent < spaces then buf.indent else spaces
  let buf := if buf.lastNewline + buf.indent = buf.pos then printbufNulTerminate { buf with pos := buf.pos - spaces }
    else buf
  let buf := { buf with indent := buf.indent - spaces }
  if buf.indent = 0 ∧ buf.nrTabstops = 0 then { buf with hasIndentOrTabstops := false } else buf

def bch2PrtNewline (buf : Printbuf) : Printbuf :=
  let buf := rawPrtCharReserved (bch2PrintbufMakeRoom buf (1 + buf.indent)) '\n'
  let buf := { buf with lastNewline := buf.pos }
  let buf := printbufNulTerminateReserved (rawPrtCharsReserved buf ' ' buf.indent)
  { buf with lastField := buf.pos, curTabstop := 0 }

def rawPrtTab (out : Printbuf) : Printbuf :=
  let spaces := max 0 ((curTabstop out : Int) - printbufLinelen out)
  let out := prtChars out ' ' spaces.toNat
  { out with lastField := out.pos, curTabstop := out.curTabstop + 1 }

-- bch2_prt_tab returns after a WARN_ON when no tabstop is current.
def bch2PrtTab (out : Printbuf) : Printbuf := if curTabstop out = 0 then out else rawPrtTab out

def rawPrtTabRjust (buf : Printbuf) : Printbuf :=
  let pad := (curTabstop buf : Int) - printbufLinelen buf
  let buf := if 0 < pad then printbufInsertSpaces buf buf.lastField pad.toNat else buf
  { buf with lastField := buf.pos, curTabstop := buf.curTabstop + 1 }

def bch2PrtTabRjust (buf : Printbuf) : Printbuf := if curTabstop buf = 0 then buf else rawPrtTabRjust buf

-- The calls a user of the printbuf makes.
inductive PrintbufOp where
  | printf (s : List Char)
  | str (s : List Char)
  | char (c : Char)
  | chars (c : Char) (n : Nat)
  | newline
  | indentAdd (spaces : Nat)
  | indentAddNextline (spaces : Nat)
  | indentSub (spaces : Nat)
  | tabstopPush (spaces : Nat)
  | tabstopPop
  | tab
  | tabRjust
deriving DecidableEq, Repr

def printbufApply (out : Printbuf) : PrintbufOp → Printbuf
  | .printf s => bch2PrtPrintfStr out s
  | .str s => prtStr out s
  | .char c => prtChar out c
  | .chars c n => prtChars out c n
  | .newline => bch2PrtNewline out
  | .indentAdd spaces => bch2PrintbufIndentAdd out spaces
  | .indentAddNextline spaces => bch2PrintbufIndentAddNextline out spaces
  | .indentSub spaces => bch2PrintbufIndentSub out spaces
  | .tabstopPush spaces => (bch2PrintbufTabstopPush out spaces).1
  | .tabstopPop => bch2PrintbufTabstopPop out
  | .tab => bch2PrtTab out
  | .tabRjust => bch2PrtTabRjust out

def printbufRun (out : Printbuf) (ops : List PrintbufOp) : Printbuf := ops.foldl printbufApply out

end Bcachefs
