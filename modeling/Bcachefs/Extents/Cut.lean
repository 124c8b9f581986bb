import Bcachefs.Extents.Merge

namespace Bcachefs

-- bkey_lt(l, r) and bkey_le(l, r): extents are ordered by inode and offset, the
-- snapshot left out.
def bkeyLt (l r : Bpos) : Bool := if l.inode ≠ r.inode then l.inode < r.inode else l.offset < r.offset

def bkeyLe (l r : Bpos) : Bool := if l.inode ≠ r.inode then l.inode < r.inode else l.offset ≤ r.offset

-- The key types bch2_cut_front_s and bch2_cut_back_s tell apart, with what of
-- each value they change: the entries of an extent or reflink_v, the index of a
-- reflink_p. Inline data is moved by memmove; only its size is kept here.
inductive CutVal where
  | deleted
  | extent (entries : List BchExtentEntry)
  | reflinkV (entries : List BchExtentEntry)
  | reflinkP (idx : Nat)
  | inlineData
  | indirectInlineData
  | other (type : Nat)
  deriving DecidableEq, Repr

-- struct bkey_s for the cut: k->p, the u32 k->size, bkey_val_u64s(k) and the value.
structure CutKey where
  p : Bpos
  size : UInt32
  valU64s : Nat
  v : CutVal
  deriving DecidableEq, Repr

-- bkey_start_offset(k) and bkey_start_pos(k)
def CutKey.bkeyStartOffset (k : CutKey) : UInt64 := k.p.offset - k.size.toUInt64

def CutKey.bkeyStartPos (k : CutKey) : Bpos := ⟨k.p.inode,k.bkeyStartOffset,k.p.snapshot⟩

-- entry->ptr.offset += sub in the 44-bit field.
def BchExtentPtr.addOffset (ptr : BchExtentPtr) (sub : Nat) : BchExtentPtr :=
  {ptr with offset := (ptr.offset + sub) % 2^44,offsetLt := Nat.mod_lt _ (by decide)}

-- entry->crcNN.offset += sub in the field of 7, 9 or 13 bits.
def BchExtentCrc.addOffset (crc : BchExtentCrc) (sub : Nat) : BchExtentCrc :=
  {crc with offset := (crc.offset + sub) % bch2CrcFieldSizeMax crc.type,
            offsetLt := Nat.mod_lt _ (by cases crc.type <;> decide)}

-- The entry loop of bch2_cut_front_s: pointers before the first crc move their
-- own offset, every crc moves its offset instead for the pointers after it.
def cutFrontEntries (sub : Nat) : Bool → List BchExtentEntry → List BchExtentEntry
  | _, [] => []
  | seenCrc, .ptr p :: rest => .ptr (if seenCrc then p else p.addOffset sub) :: cutFrontEntries sub seenCrc rest
  | _, .crc c :: rest => .crc (c.addOffset sub) :: cutFrontEntries sub true rest
  | seenCrc, e :: rest => e :: cutFrontEntries sub seenCrc rest

-- bkey_inline_data_offset(k): an indirect inline extent keeps its refcount
-- before the data.
def bkeyInlineDataOffset : CutVal → Nat
  | .indirectInlineData => 8
  | _ => 0

-- bkey_inline_data_bytes(k)
def bkeyInlineDataBytes (valU64s : Nat) (v : CutVal) : Nat := valU64s * 8 - bkeyInlineDataOffset v

-- The switch on k->type in bch2_cut_front_s, with new_val_u64s as it stands.
def cutFrontVal (sub : UInt64) (valU64s : Nat) (v : CutVal) (newValU64s : Nat) : CutVal × Nat :=
  match v with
  | .extent entries => (.extent (cutFrontEntries sub.toNat false entries),newValU64s)
  | .reflinkV entries => (.reflinkV (cutFrontEntries sub.toNat false entries),newValU64s)
  -- SET_REFLINK_P_IDX keeps the low 56 bits of the u64 sum
  | .reflinkP idx => (.reflinkP ((idx + sub.toNat) % 2^56),newValU64s)
  | .inlineData | .indirectInlineData =>
    let cut := min (sub <<< 9).toNat (bkeyInlineDataBytes valU64s v)
    (v,newValU64s - cut / 8)
  | _ => (v,newValU64s)

-- bch2_cut_front_s(where, k): the cut key and what it returns, -val_u64s_delta.
-- new_val_u64s never grows, so BUG_ON(val_u64s_delta < 0) never fires.
def bch2CutFrontS (pos : Bpos) (k : CutKey) : CutKey × Int :=
  if bkeyLe pos k.bkeyStartPos then (k,0)
  else
    let sub := pos.offset - k.bkeyStartOffset
    let size := k.size - sub.toUInt32
    let (v,newValU64s) := if size = 0 then (CutVal.deleted,0) else (k.v,k.valU64s)
    let (v,newValU64s) := cutFrontVal sub k.valU64s v newValU64s
    ({k with size := size,valU64s := newValU64s,v := v},(newValU64s : Int) - k.valU64s)

-- The switch on k->type in bch2_cut_back_s; `size` is the new u32 k->size.
def cutBackValU64s (valU64s : Nat) (v : CutVal) (size : UInt32) (newValU64s : Nat) : Nat :=
  match v with
  | .inlineData | .indirectInlineData =>
    (bkeyInlineDataOffset v + min (bkeyInlineDataBytes valU64s v) (size <<< 9).toNat) / 8
  | _ => newValU64s

-- bch2_cut_back_s(where, k)
def bch2CutBackS (pos : Bpos) (k : CutKey) : CutKey × Int :=
  if bkeyLe k.p pos then (k,0)
  else
    let len := pos.offset - k.bkeyStartOffset
    let (v,newValU64s) := if len = 0 then (CutVal.deleted,0) else (k.v,k.valU64s)
    let newValU64s := cutBackValU64s k.valU64s v len.toUInt32 newValU64s
    ({p := {k.p with offset := pos.offset},size := len.toUInt32,valU64s := newValU64s,v := v},
      (newValU64s : Int) - k.valU64s)

-- What a cut must keep of each sector: the device, the generation and
-- ptr.offset + crc.offset + the sector's distance from the key's start.
def SectorLocation.data (l : SectorLocation) : Nat × Nat × Nat := (l.dev,l.gen,l.blobOffset + l.offset)

-- Sector s as the i-th pointer of an extent or reflink_v key reads it.
def CutKey.sectorData (k : CutKey) (i s : Nat) : Option (Nat × Nat × Nat) :=
  match k.v with
  | .extent entries | .reflinkV entries =>
    (extentSectorLocation ⟨k.p,k.size.toNat,entries,k.size.toNat_lt⟩ i s).map SectorLocation.data
  | _ => none

section Order

theorem bkeyLe_of_lt {l r : Bpos} (lt : bkeyLt l r = true) : bkeyLe l r = true := by
  unfold bkeyLt at lt
  unfold bkeyLe
  by_cases ne : l.inode ≠ r.inode
  · rw [if_pos ne] at lt ⊢
    exact lt
  · rw [if_neg ne] at lt ⊢
    simp only [decide_eq_true_eq] at lt ⊢
    exact UInt64.le_of_lt lt

theorem bkeyLt_iff {l r : Bpos} (same : l.inode = r.inode) : bkeyLt l r = true ↔ l.offset < r.offset := by
  simp [bkeyLt,same]

theorem bkeyLe_iff {l r : Bpos} (same : l.inode = r.inode) : bkeyLe l r = true ↔ l.offset ≤ r.offset := by
  simp [bkeyLe,same]

theorem inode_eq_of_between {a b c : Bpos} (same : a.inode = c.inode) (ab : bkeyLe a b = true)
    (bc : bkeyLe b c = true) : b.inode = a.inode := by
  unfold bkeyLe at ab bc
  by_cases eq : a.inode = b.inode
  · exact eq.symm
  · rw [if_pos eq] at ab
    rw [if_pos (by rw [← same]; exact Ne.symm eq)] at bc
    simp only [decide_eq_true_eq] at ab bc
    rw [← same] at bc
    exact absurd (UInt64.lt_trans ab bc) (UInt64.lt_irrefl _)

end Order

theorem toNat_bkeyStartOffset {k : CutKey} {x : UInt64} (atLeast : k.bkeyStartOffset ≤ x) (below : x ≤ k.p.offset) :
    k.size.toNat ≤ k.p.offset.toNat ∧ k.bkeyStartOffset.toNat = k.p.offset.toNat - k.size.toNat := by
  have start : k.bkeyStartOffset.toNat = (2^64 - k.size.toNat + k.p.offset.toNat) % 2^64 := by
    rw [CutKey.bkeyStartOffset,UInt64.toNat_sub,UInt32.toNat_toUInt64]
  have := UInt64.le_iff_toNat_le.mp atLeast
  have := UInt64.le_iff_toNat_le.mp below
  have := k.size.toNat_lt
  have := k.p.offset.toNat_lt
  by_cases fits : k.size.toNat ≤ k.p.offset.toNat
  · refine ⟨fits,?_⟩
    rw [start]
    omega
  · rw [start,Nat.mod_eq_of_lt (by omega)] at *
    omega

section Decode

-- ptr.offset + crc.offset of a decoded pointer, with its device and generation.
def ptrDataBase (d : ExtentPtrDecoded) : Nat × Nat × Nat := (d.ptr.dev,d.ptr.gen,d.ptr.offset + d.crc.offset)

def shiftBase (sub : Nat) (b : Nat × Nat × Nat) : Nat × Nat × Nat := (b.1,b.2.1,b.2.2 + sub)

theorem decodeFrom_bases_size (size size' : Nat) {crc crc' : BchExtentCrcUnpacked} (same : crc'.offset = crc.offset)
    (hasEc : Bool) (ec : BchExtentStripePtr) (entries : List BchExtentEntry) :
    (bkeyPtrsDecodeFrom size' crc' hasEc ec entries).map ptrDataBase =
      (bkeyPtrsDecodeFrom size crc hasEc ec entries).map ptrDataBase := by
  induction entries generalizing crc crc' hasEc ec with
  | nil => rfl
  | cons e rest ih =>
    cases e with
    | ptr p => simp only [bkeyPtrsDecodeFrom,List.map_cons,ptrDataBase,same,ih same]
    | crc c => exact ih (show (bch2ExtentCrcUnpack size' (some c)).offset = (bch2ExtentCrcUnpack size (some c)).offset from rfl) _ _
    | stripePtr s => exact ih same _ _
    | rebalance | flags => exact ih same _ _

theorem addOffset_offset_of_fits (p : BchExtentPtr) {sub size : Nat} (short : sub < size) (fits : p.offset + size ≤ 2^44) :
    (p.addOffset sub).offset = p.offset + sub :=
  Nat.mod_eq_of_lt (by omega)

theorem crc_addOffset_offset_of_fits (c : BchExtentCrc) {sub size : Nat} (short : sub < size)
    (fits : c.offset + size ≤ c.rawUncompressedSize + 1) : (c.addOffset sub).offset = c.offset + sub := by
  have := c.rawUncompressedSizeLt
  exact Nat.mod_eq_of_lt (by omega)

-- The entry loop of the cut as seen through the decoded pointers: each base moves
-- on by sub. The induction carries the crc in force on both sides, whose offsets
-- differ by sub once a crc has been seen and agree before.
theorem decodeFrom_cutFront {sub size size' : Nat} (short : sub < size) (entries : List BchExtentEntry) :
    ∀ {seenCrc : Bool} {crc crc' : BchExtentCrcUnpacked} {hasEc : Bool} {ec : BchExtentStripePtr},
      crc'.offset = crc.offset + (if seenCrc then sub else 0) →
      (∀ c, .crc c ∈ entries → c.offset + size ≤ c.rawUncompressedSize + 1) →
      (seenCrc = false → ∀ p, .ptr p ∈ entries.takeWhile (fun e => !extentEntryIsCrc e) → p.offset + size ≤ 2^44) →
      (bkeyPtrsDecodeFrom size' crc' hasEc ec (cutFrontEntries sub seenCrc entries)).map ptrDataBase =
        (bkeyPtrsDecodeFrom size crc hasEc ec entries).map (shiftBase sub ∘ ptrDataBase) := by
  induction entries with
  | nil => intros; rfl
  | cons e rest ih =>
    intro seenCrc crc crc' hasEc ec moved crcFits ptrFits
    have restCrcs : ∀ c, .crc c ∈ rest → c.offset + size ≤ c.rawUncompressedSize + 1 :=
      fun c mem => crcFits c (List.mem_cons_of_mem _ mem)
    cases e with
    | ptr p =>
      have restPtrs : seenCrc = false → ∀ q, .ptr q ∈ rest.takeWhile (fun e => !extentEntryIsCrc e) →
          q.offset + size ≤ 2^44 := fun first q mem =>
        ptrFits first q (by rw [List.takeWhile_cons_of_pos rfl]; exact List.mem_cons_of_mem _ mem)
      simp only [cutFrontEntries,bkeyPtrsDecodeFrom,List.map_cons,ih moved restCrcs restPtrs]
      refine congrArg (· :: _) ?_
      cases seenCrc with
      | true =>
        simp only [if_true] at moved
        simp only [if_true,ptrDataBase,shiftBase,Function.comp,moved,Nat.add_assoc]
      | false =>
        have fits := ptrFits rfl p (by rw [List.takeWhile_cons_of_pos rfl]; exact List.mem_cons_self)
        simp only [Bool.false_eq_true,if_false,Nat.add_zero] at moved
        simp only [Bool.false_eq_true,if_false,ptrDataBase,shiftBase,Function.comp,moved,
          addOffset_offset_of_fits p short fits]
        exact congrArg (fun x => (p.dev,p.gen,x)) (by omega)
    | crc c =>
      have unpacked : (bch2ExtentCrcUnpack size' (some (c.addOffset sub))).offset =
          (bch2ExtentCrcUnpack size (some c)).offset + (if true then sub else 0) :=
        crc_addOffset_offset_of_fits c short (crcFits c List.mem_cons_self)
      exact ih unpacked restCrcs (fun wrong => by cases wrong)
    | stripePtr s =>
      exact ih moved restCrcs fun first q mem =>
        ptrFits first q (by rw [List.takeWhile_cons_of_pos rfl]; exact List.mem_cons_of_mem _ mem)
    | rebalance =>
      exact ih moved restCrcs fun first q mem =>
        ptrFits first q (by rw [List.takeWhile_cons_of_pos rfl]; exact List.mem_cons_of_mem _ mem)
    | flags =>
      exact ih moved restCrcs fun first q mem =>
        ptrFits first q (by rw [List.takeWhile_cons_of_pos rfl]; exact List.mem_cons_of_mem _ mem)

theorem shiftBase_shiftBase (a b : Nat) (x : Nat × Nat × Nat) : shiftBase a (shiftBase b x) = shiftBase (b + a) x := by
  simp only [shiftBase,Nat.add_assoc]

end Decode

theorem sectorData_of_entries {k : CutKey} {entries : List BchExtentEntry}
    (ptrs : k.v = .extent entries ∨ k.v = .reflinkV entries) (i s : Nat) :
    k.sectorData i s =
      if k.bkeyStartOffset.toNat ≤ s ∧ s < k.p.offset.toNat then
        ((bkeyPtrsDecode k.size.toNat entries).map ptrDataBase)[i]?.map (shiftBase (s - k.bkeyStartOffset.toNat))
      else none := by
  have start : bkeyStartOffset ⟨k.p,k.size.toNat,entries,k.size.toNat_lt⟩ = k.bkeyStartOffset := by
    simp [bkeyStartOffset,CutKey.bkeyStartOffset]
  have reads : k.sectorData i s =
      (extentSectorLocation ⟨k.p,k.size.toNat,entries,k.size.toNat_lt⟩ i s).map SectorLocation.data := by
    unfold CutKey.sectorData
    rcases ptrs with same | same <;> rw [same]
  rw [reads,extentSectorLocation,start,List.getElem?_map]
  dsimp only
  split
  · rename_i found
    rw [found]
    split <;> rfl
  · rename_i d found
    rw [found]
    by_cases inside : k.bkeyStartOffset.toNat ≤ s ∧ s < k.p.offset.toNat
    · simp only [if_pos inside,Option.map_some,SectorLocation.data,ptrDataBase,shiftBase,Nat.add_assoc]
    · simp only [if_neg inside,Option.map_none]

theorem cutFront_bounds {pos : Bpos} {k : CutKey} (after : bkeyLt k.bkeyStartPos pos = true)
    (within : bkeyLe pos k.p = true) : pos.inode = k.p.inode ∧ k.bkeyStartOffset < pos.offset ∧ pos.offset ≤ k.p.offset := by
  have same : pos.inode = k.p.inode := @inode_eq_of_between k.bkeyStartPos pos k.p rfl (bkeyLe_of_lt after) within
  exact ⟨same,(bkeyLt_iff (show k.bkeyStartPos.inode = pos.inode from same.symm)).mp after,(bkeyLe_iff same).mp within⟩

theorem cutFrontVal_ptrs (sub : UInt64) (valU64s n : Nat) {v : CutVal} {entries : List BchExtentEntry}
    (ptrs : v = .extent entries ∨ v = .reflinkV entries) :
    (cutFrontVal sub valU64s v n).2 = n ∧
      ((cutFrontVal sub valU64s v n).1 = .extent (cutFrontEntries sub.toNat false entries) ∨
        (cutFrontVal sub valU64s v n).1 = .reflinkV (cutFrontEntries sub.toNat false entries)) := by
  rcases ptrs with rfl | rfl
  · exact ⟨rfl,.inl rfl⟩
  · exact ⟨rfl,.inr rfl⟩

theorem cutFrontVal_deleted (sub : UInt64) (valU64s n : Nat) : cutFrontVal sub valU64s .deleted n = (.deleted,n) := rfl

theorem sectorData_deleted (k : CutKey) (deleted : k.v = .deleted) (i s : Nat) : k.sectorData i s = none := by
  simp only [CutKey.sectorData,deleted]

theorem bch2CutFrontS_spec {pos : Bpos} {k : CutKey} {entries : List BchExtentEntry}
    (ptrs : k.v = .extent entries ∨ k.v = .reflinkV entries)
    (after : bkeyLt k.bkeyStartPos pos = true) (within : bkeyLe pos k.p = true)
    (crcFits : ∀ c, .crc c ∈ entries → c.offset + k.size.toNat ≤ c.rawUncompressedSize + 1)
    (ptrFits : ∀ p, .ptr p ∈ entries.takeWhile (fun e => !extentEntryIsCrc e) → p.offset + k.size.toNat ≤ 2^44) :
    let cut := bch2CutFrontS pos k
    cut.1.bkeyStartOffset = pos.offset ∧ cut.1.p = k.p ∧
      (cut.1.v = .deleted ∧ cut.1.valU64s = 0 ↔ cut.1.size = 0) ∧
      cut.1.valU64s ≤ k.valU64s ∧ cut.2 = -((k.valU64s - cut.1.valU64s : Nat) : Int) ∧
      ∀ i s, cut.1.sectorData i s = if pos.offset.toNat ≤ s then k.sectorData i s else none := by
  obtain ⟨same,lt,le⟩ := cutFront_bounds after within
  obtain ⟨noWrap,startNat⟩ := toNat_bkeyStartOffset (UInt64.le_of_lt lt) le
  have ltNat := UInt64.lt_iff_toNat_lt.mp lt
  have leNat := UInt64.le_iff_toNat_le.mp le
  have notEarly : bkeyLe pos k.bkeyStartPos = false := by
    rw [Bool.eq_false_iff,ne_eq,bkeyLe_iff (show pos.inode = k.bkeyStartPos.inode from same)]
    exact UInt64.not_le.mpr lt
  unfold bch2CutFrontS
  simp only [notEarly,Bool.false_eq_true,if_false]
  generalize subDef : pos.offset - k.bkeyStartOffset = sub
  have subNat : sub.toNat = pos.offset.toNat - k.bkeyStartOffset.toNat := by
    rw [← subDef]
    exact UInt64.toNat_sub_of_le _ _ (UInt64.le_of_lt lt)
  have sub32 : sub.toUInt32.toNat = sub.toNat := by
    rw [UInt64.toNat_toUInt32]
    exact Nat.mod_eq_of_lt (by have := k.size.toNat_lt; omega)
  have sizeNat : (k.size - sub.toUInt32).toNat = k.p.offset.toNat - pos.offset.toNat := by
    rw [UInt32.toNat_sub_of_le _ _ (UInt32.le_iff_toNat_le.mpr (by omega)),sub32]
    omega
  have newStart : k.p.offset - (k.size - sub.toUInt32).toUInt64 = pos.offset := by
    apply UInt64.toNat_inj.mp
    rw [UInt64.toNat_sub_of_le _ _ (UInt64.le_iff_toNat_le.mpr (by rw [UInt32.toNat_toUInt64]; omega)),
      UInt32.toNat_toUInt64,sizeNat]
    omega
  by_cases empty : k.size - sub.toUInt32 = 0
  · -- the whole key is cut: it is deleted and keeps no value
    have ends : k.p.offset.toNat = pos.offset.toNat := by
      rw [empty] at sizeNat
      have : (0 : UInt32).toNat = 0 := rfl
      omega
    simp only [if_pos empty,cutFrontVal_deleted]
    refine ⟨newStart,trivial,by simp [empty],Nat.zero_le _,by simp,fun i s => ?_⟩
    rw [sectorData_deleted _ rfl,sectorData_of_entries ptrs]
    by_cases inside : pos.offset.toNat ≤ s
    · rw [if_pos inside,if_neg (by omega)]
    · rw [if_neg inside]
  · simp only [if_neg empty]
    obtain ⟨kept,ptrs'⟩ := cutFrontVal_ptrs sub k.valU64s k.valU64s ptrs
    generalize cutDef : cutFrontVal sub k.valU64s k.v k.valU64s = cut at kept ptrs'
    obtain ⟨v',n'⟩ := cut
    dsimp only at kept ptrs' ⊢
    subst kept
    refine ⟨newStart,trivial,?_,Nat.le_refl _,by simp,fun i s => ?_⟩
    · rcases ptrs' with rfl | rfl <;> simp [empty]
    have short : sub.toNat < k.size.toNat := by
      have : (k.size - sub.toUInt32).toNat ≠ 0 := fun z => empty (UInt32.toNat_inj.mp z)
      omega
    have moved := @decodeFrom_cutFront sub.toNat k.size.toNat (k.size - sub.toUInt32).toNat short entries false
      (bch2ExtentCrcUnpack k.size.toNat none) (bch2ExtentCrcUnpack (k.size - sub.toUInt32).toNat none) false ⟨0,0,0⟩
      rfl crcFits (fun _ => ptrFits)
    rw [sectorData_of_entries ptrs',sectorData_of_entries ptrs]
    have newStart' : CutKey.bkeyStartOffset ⟨k.p,k.size - sub.toUInt32,k.valU64s,v'⟩ = pos.offset := newStart
    simp only [newStart']
    unfold bkeyPtrsDecode
    rw [moved,← List.map_map,List.getElem?_map,Option.map_map]
    by_cases inside : pos.offset.toNat ≤ s ∧ s < k.p.offset.toNat
    · -- sub sectors fewer from the new start, sub more on every base
      have shifts : shiftBase (s - pos.offset.toNat) ∘ shiftBase sub.toNat =
          shiftBase (s - k.bkeyStartOffset.toNat) := by
        funext b
        rw [Function.comp,shiftBase_shiftBase,show sub.toNat + (s - pos.offset.toNat) = s - k.bkeyStartOffset.toNat by omega]
      rw [if_pos inside,if_pos inside.1,if_pos ⟨by omega,inside.2⟩,shifts]
    · rw [if_neg inside]
      by_cases past : pos.offset.toNat ≤ s
      · rw [if_pos past,if_neg (by omega)]
      · rw [if_neg past]

theorem cutBack_bounds {pos : Bpos} {k : CutKey} (after : bkeyLe k.bkeyStartPos pos = true)
    (within : bkeyLt pos k.p = true) : pos.inode = k.p.inode ∧ k.bkeyStartOffset ≤ pos.offset ∧ pos.offset < k.p.offset := by
  have same : pos.inode = k.p.inode := @inode_eq_of_between k.bkeyStartPos pos k.p rfl after (bkeyLe_of_lt within)
  exact ⟨same,(bkeyLe_iff (show k.bkeyStartPos.inode = pos.inode from same.symm)).mp after,(bkeyLt_iff same).mp within⟩

theorem cutBackValU64s_ptrs (valU64s : Nat) (size : UInt32) (n : Nat) {v : CutVal} {entries : List BchExtentEntry}
    (ptrs : v = .extent entries ∨ v = .reflinkV entries) : cutBackValU64s valU64s v size n = n := by
  rcases ptrs with rfl | rfl <;> rfl

theorem cutBackValU64s_deleted (valU64s : Nat) (size : UInt32) (n : Nat) : cutBackValU64s valU64s .deleted size n = n :=
  rfl

theorem bch2CutBackS_spec {pos : Bpos} {k : CutKey} {entries : List BchExtentEntry}
    (ptrs : k.v = .extent entries ∨ k.v = .reflinkV entries)
    (after : bkeyLe k.bkeyStartPos pos = true) (within : bkeyLt pos k.p = true) :
    let cut := bch2CutBackS pos k
    cut.1.bkeyStartOffset = k.bkeyStartOffset ∧ cut.1.p = {k.p with offset := pos.offset} ∧
      (cut.1.v = .deleted ∧ cut.1.valU64s = 0 ↔ cut.1.size = 0) ∧
      cut.1.valU64s ≤ k.valU64s ∧ cut.2 = -((k.valU64s - cut.1.valU64s : Nat) : Int) ∧
      ∀ i s, cut.1.sectorData i s = if s < pos.offset.toNat then k.sectorData i s else none := by
  obtain ⟨same,le,lt⟩ := cutBack_bounds after within
  obtain ⟨noWrap,startNat⟩ := toNat_bkeyStartOffset le (UInt64.le_of_lt lt)
  have leNat := UInt64.le_iff_toNat_le.mp le
  have ltNat := UInt64.lt_iff_toNat_lt.mp lt
  have notEarly : bkeyLe k.p pos = false := by
    rw [Bool.eq_false_iff,ne_eq,bkeyLe_iff same.symm]
    exact UInt64.not_le.mpr lt
  unfold bch2CutBackS
  simp only [notEarly,Bool.false_eq_true,if_false]
  generalize lenDef : pos.offset - k.bkeyStartOffset = len
  have lenNat : len.toNat = pos.offset.toNat - k.bkeyStartOffset.toNat := by
    rw [← lenDef]
    exact UInt64.toNat_sub_of_le _ _ le
  have len32 : len.toUInt32.toNat = len.toNat := by
    rw [UInt64.toNat_toUInt32]
    exact Nat.mod_eq_of_lt (by have := k.size.toNat_lt; omega)
  have newStart : pos.offset - len.toUInt32.toUInt64 = k.bkeyStartOffset := by
    apply UInt64.toNat_inj.mp
    rw [UInt64.toNat_sub_of_le _ _ (UInt64.le_iff_toNat_le.mpr (by rw [UInt32.toNat_toUInt64]; omega)),
      UInt32.toNat_toUInt64,len32]
    omega
  by_cases empty : len = 0
  · -- pos is the start: the key is deleted and keeps no value
    have none32 : len.toUInt32 = 0 := by rw [empty]; rfl
    have noneNat : len.toNat = 0 := by rw [empty]; rfl
    simp only [if_pos empty,cutBackValU64s_deleted]
    refine ⟨newStart,trivial,by simp [none32],Nat.zero_le _,by simp,fun i s => ?_⟩
    rw [sectorData_deleted _ rfl,sectorData_of_entries ptrs]
    by_cases before : s < pos.offset.toNat
    · rw [if_pos before,if_neg (by omega)]
    · rw [if_neg before]
  · simp only [if_neg empty,cutBackValU64s_ptrs _ _ _ ptrs]
    refine ⟨newStart,trivial,?_,Nat.le_refl _,by simp,fun i s => ?_⟩
    · have nonzero : len.toUInt32 ≠ 0 := fun z => empty (UInt64.toNat_inj.mp (by rw [← len32,z]; rfl))
      refine iff_of_false (fun ⟨deleted,_⟩ => ?_) nonzero
      rcases ptrs with kept | kept <;> rw [kept] at deleted <;> cases deleted
    rw [sectorData_of_entries (k := ⟨{k.p with offset := pos.offset},len.toUInt32,k.valU64s,k.v⟩) ptrs,
      sectorData_of_entries ptrs]
    have newStart' : CutKey.bkeyStartOffset ⟨{k.p with offset := pos.offset},len.toUInt32,k.valU64s,k.v⟩ =
        k.bkeyStartOffset := newStart
    simp only [newStart']
    unfold bkeyPtrsDecode
    rw [@decodeFrom_bases_size k.size.toNat len.toUInt32.toNat (bch2ExtentCrcUnpack k.size.toNat none)
      (bch2ExtentCrcUnpack len.toUInt32.toNat none) rfl]
    by_cases inside : k.bkeyStartOffset.toNat ≤ s ∧ s < pos.offset.toNat
    · rw [if_pos inside,if_pos inside.2,if_pos ⟨inside.1,by omega⟩]
    · rw [if_neg inside]
      by_cases before : s < pos.offset.toNat
      · rw [if_pos before,if_neg (by omega)]
      · rw [if_neg before]

-- Both cuts on an extent or reflink_v key whose offsets have room for them, as
-- bch2_bkey_ptrs_validate checks for every crc (offset + live size at most the
-- uncompressed size) and a pointer before the first crc states of itself.
theorem cut_front_back_keep_sectors {k : CutKey} {entries : List BchExtentEntry}
    (ptrs : k.v = .extent entries ∨ k.v = .reflinkV entries)
    (crcFits : ∀ c, .crc c ∈ entries → c.offset + k.size.toNat ≤ c.rawUncompressedSize + 1)
    (ptrFits : ∀ p, .ptr p ∈ entries.takeWhile (fun e => !extentEntryIsCrc e) → p.offset + k.size.toNat ≤ 2^44) :
    (∀ pos, bkeyLt k.bkeyStartPos pos = true → bkeyLe pos k.p = true →
      let cut := bch2CutFrontS pos k
      cut.1.bkeyStartOffset = pos.offset ∧ cut.1.p = k.p ∧
        (cut.1.v = .deleted ∧ cut.1.valU64s = 0 ↔ cut.1.size = 0) ∧
        cut.1.valU64s ≤ k.valU64s ∧ cut.2 = -((k.valU64s - cut.1.valU64s : Nat) : Int) ∧
        ∀ i s, cut.1.sectorData i s = if pos.offset.toNat ≤ s then k.sectorData i s else none) ∧
    (∀ pos, bkeyLe k.bkeyStartPos pos = true → bkeyLt pos k.p = true →
      let cut := bch2CutBackS pos k
      cut.1.bkeyStartOffset = k.bkeyStartOffset ∧ cut.1.p = {k.p with offset := pos.offset} ∧
        (cut.1.v = .deleted ∧ cut.1.valU64s = 0 ↔ cut.1.size = 0) ∧
        cut.1.valU64s ≤ k.valU64s ∧ cut.2 = -((k.valU64s - cut.1.valU64s : Nat) : Int) ∧
        ∀ i s, cut.1.sectorData i s = if s < pos.offset.toNat then k.sectorData i s else none) :=
  ⟨fun _ after within => bch2CutFrontS_spec ptrs after within crcFits ptrFits,
    fun _ after within => bch2CutBackS_spec ptrs after within⟩

-- Sectors 8 and 9 of inode 1 in a crc32 entry of 128 uncompressed sectors, the
-- kept part starting at `offset`, and one pointer after it at sector 1000.
def cutTestCrc (offset : Nat) (fits : offset < 128) : BchExtentCrc :=
  ⟨.crc32,127,127,offset,0,BCH_CSUM_none,BCH_COMPRESSION_TYPE_none,⟨0,0⟩,by decide,by decide,fits,zero_le_crc32NonceMax,
    csumNone_lt,by decide,crcCsumFits_crc32_zero⟩

def cutTestKey (offset : Nat) (fits : offset < 128) : CutKey :=
  ⟨⟨1,10,0⟩,2,2,.extent [.crc (cutTestCrc offset fits),
    .ptr ⟨false,false,1000,0,0,by decide,zero_lt_extentPtrFieldMax,zero_lt_extentPtrFieldMax⟩]⟩

theorem cut_keep_sectors_test :
    ((cutTestKey 0 (by decide)).v = .extent [.crc (cutTestCrc 0 (by decide)),
        .ptr ⟨false,false,1000,0,0,by decide,by decide,by decide⟩] ∨
      (cutTestKey 0 (by decide)).v = .reflinkV [.crc (cutTestCrc 0 (by decide)),
        .ptr ⟨false,false,1000,0,0,by decide,by decide,by decide⟩]) ∧
    (∀ c, .crc c ∈ [BchExtentEntry.crc (cutTestCrc 0 (by decide)),
        .ptr ⟨false,false,1000,0,0,by decide,by decide,by decide⟩] →
      c.offset + (cutTestKey 0 (by decide)).size.toNat ≤ c.rawUncompressedSize + 1) ∧
    (∀ p, .ptr p ∈ [BchExtentEntry.crc (cutTestCrc 0 (by decide)),
        .ptr ⟨false,false,1000,0,0,by decide,by decide,by decide⟩].takeWhile (fun e => !extentEntryIsCrc e) →
      p.offset + (cutTestKey 0 (by decide)).size.toNat ≤ 2^44) ∧
    (bch2CutFrontS ⟨1,9,0⟩ (cutTestKey 0 (by decide))).1.sectorData 0 9 = (cutTestKey 0 (by decide)).sectorData 0 9 := by
  have crcFits : ∀ c, .crc c ∈ [BchExtentEntry.crc (cutTestCrc 0 (by decide)),
      .ptr ⟨false,false,1000,0,0,by decide,by decide,by decide⟩] →
      c.offset + (cutTestKey 0 (by decide)).size.toNat ≤ c.rawUncompressedSize + 1 := by
    intro c mem
    simp only [List.mem_cons,BchExtentEntry.crc.injEq,reduceCtorEq,List.not_mem_nil,or_false] at mem
    subst mem
    decide
  have ptrFits : ∀ p, .ptr p ∈ [BchExtentEntry.crc (cutTestCrc 0 (by decide)),
      .ptr ⟨false,false,1000,0,0,by decide,by decide,by decide⟩].takeWhile (fun e => !extentEntryIsCrc e) →
      p.offset + (cutTestKey 0 (by decide)).size.toNat ≤ 2^44 := by
    intro p mem
    simp [List.takeWhile,extentEntryIsCrc,BchExtentEntry.type,cutTestCrc] at mem
  have front := (cut_front_back_keep_sectors (.inl rfl) crcFits ptrFits).1 ⟨1,9,0⟩ (by decide) (by decide)
  refine ⟨.inl rfl,crcFits,ptrFits,?_⟩
  rw [front.2.2.2.2.2 0 9,if_pos (by decide)]

end Bcachefs
