import Bcachefs.Bkey.FormatState

namespace Bcachefs

-- struct time_stat_buffer: the 31 slots, of which the first `nr` were filled
-- since the last flush.
structure TimeStatBuffer where
  nr : Nat
  entries : List (UInt64 × UInt64)
  deriving DecidableEq, Repr

-- ARRAY_SIZE(b->entries)
def TIME_STAT_BUFFER_NR : Nat := 31

-- A buffer as alloc_percpu_gfp returns it: zeroed.
def timeStatBufferZero : TimeStatBuffer := ⟨0,List.replicate TIME_STAT_BUFFER_NR (0,0)⟩

-- stats->buffer: NULL, TIME_STATS_NONPCPU, or one buffer per possible cpu.
inductive TimeStatsBuffer where
  | null
  | nonpcpu
  | pcpu (buffers : List TimeStatBuffer)
  deriving DecidableEq, Repr

-- struct bch2_time_stats. mean_and_variance, its weighted form and the
-- quantiles are folds over the values they are given; the model keeps the
-- durations and frequencies in the order they were folded in.
structure Bch2TimeStats where
  buffer : TimeStatsBuffer
  minDuration : UInt64
  maxDuration : UInt64
  totalDuration : UInt64
  maxFreq : UInt64
  minFreq : UInt64
  lastEvent : UInt64
  durations : List UInt64
  freqs : List UInt64
  deriving DecidableEq, Repr

-- time_after64(a, b): b - a is negative as an s64.
def timeAfter64 (a b : UInt64) : Bool := decide (2^63 ≤ (b - a).toNat)

def bch2TimeStatsInit : Bch2TimeStats := ⟨.null,U64_MAX,0,0,0,U64_MAX,0,[],[]⟩

-- time_stats_update_one(stats, start, end)
def timeStatsUpdateOne (stats : Bch2TimeStats) (start stop : UInt64) : Bch2TimeStats :=
  let stats := if timeAfter64 stop start then
      { stats with durations := stats.durations ++ [stop - start],
                   maxDuration := max stats.maxDuration (stop - start),
                   minDuration := min stats.minDuration (stop - start),
                   totalDuration := stats.totalDuration + (stop - start) }
    else stats
  let stats := if stats.lastEvent ≠ 0 ∧ timeAfter64 stop stats.lastEvent then
      { stats with freqs := stats.freqs ++ [stop - stats.lastEvent],
                   maxFreq := max stats.maxFreq (stop - stats.lastEvent),
                   minFreq := min stats.minFreq (stop - stats.lastEvent) }
    else stats
  { stats with lastEvent := stop }

-- __bch2_time_stats_clear_buffer: every slot of the buffer, whatever b->nr is.
def bch2TimeStatsClearBuffer (stats : Bch2TimeStats) (b : TimeStatBuffer) : Bch2TimeStats × TimeStatBuffer :=
  (b.entries.foldl (fun stats e => timeStatsUpdateOne stats e.1 e.2) stats,{ b with nr := 0 })

-- __bch2_time_stats_update on `cpu`, each call one atomic step. `fastEvents` is
-- the test of the weighted frequency mean against 32, `alloc` whether
-- alloc_percpu_gfp succeeds for the `nrCpus` possible cpus. none is
-- BUG_ON(b->nr >= ARRAY_SIZE(b->entries)), or a cpu that is not possible.
def bch2TimeStatsUpdate (fastEvents : List UInt64 → Bool) (alloc : Bool) (nrCpus : Nat) (stats : Bch2TimeStats)
    (cpu : Nat) (start stop : UInt64) : Option Bch2TimeStats :=
  match stats.buffer with
  | .pcpu buffers =>
    match buffers[cpu]? with
    | none => none
    | some b =>
      if b.nr ≥ TIME_STAT_BUFFER_NR then none
      else
        let b : TimeStatBuffer := ⟨b.nr + 1,b.entries.set b.nr (start,stop)⟩
        let flushed := if b.nr = TIME_STAT_BUFFER_NR then bch2TimeStatsClearBuffer stats b else (stats,b)
        some { flushed.1 with buffer := .pcpu (buffers.set cpu flushed.2) }
  | buffer =>
    let stats := timeStatsUpdateOne stats start stop
    if buffer = .null ∧ fastEvents stats.freqs = true ∧ stats.durations.length > 1024 ∧ alloc = true then
      some { stats with buffer := .pcpu (List.replicate nrCpus timeStatBufferZero) }
    else some stats

-- The flush of the per-cpu buffers at the top of bch2_time_stats_to_text, all
-- that the printing changes. per_cpu_ptr on TIME_STATS_NONPCPU is none.
def bch2TimeStatsToText (stats : Bch2TimeStats) : Option Bch2TimeStats :=
  match stats.buffer with
  | .null => some stats
  | .nonpcpu => none
  | .pcpu buffers =>
    let flushed := buffers.foldl (fun (acc : Bch2TimeStats × List TimeStatBuffer) b =>
      ((bch2TimeStatsClearBuffer acc.1 b).1,acc.2 ++ [(bch2TimeStatsClearBuffer acc.1 b).2])) (stats,[])
    some { flushed.1 with buffer := .pcpu flushed.2 }

section Flush

-- The durations a list of slots contributes when each is folded in.
def slotDurations (entries : List (UInt64 × UInt64)) : List UInt64 :=
  entries.filterMap fun e => if timeAfter64 e.2 e.1 then some (e.2 - e.1) else none

@[simp] theorem timeStatsUpdateOne_durations (stats : Bch2TimeStats) (start stop : UInt64) :
    (timeStatsUpdateOne stats start stop).durations =
      stats.durations ++ if timeAfter64 stop start then [stop - start] else [] := by
  unfold timeStatsUpdateOne
  by_cases after : timeAfter64 stop start <;> simp only [after,if_true,Bool.false_eq_true,if_false] <;> split <;> simp

@[simp] theorem timeStatsUpdateOne_lastEvent (stats : Bch2TimeStats) (start stop : UInt64) :
    (timeStatsUpdateOne stats start stop).lastEvent = stop := rfl

@[simp] theorem timeStatsUpdateOne_buffer (stats : Bch2TimeStats) (start stop : UInt64) :
    (timeStatsUpdateOne stats start stop).buffer = stats.buffer := by
  unfold timeStatsUpdateOne
  dsimp only
  split <;> split <;> rfl

-- Folding a run of slots, as the flush does.
def foldSlots (entries : List (UInt64 × UInt64)) (stats : Bch2TimeStats) : Bch2TimeStats :=
  entries.foldl (fun stats e => timeStatsUpdateOne stats e.1 e.2) stats

theorem foldSlots_durations (entries : List (UInt64 × UInt64)) (stats : Bch2TimeStats) :
    (foldSlots entries stats).durations = stats.durations ++ slotDurations entries := by
  induction entries generalizing stats with
  | nil => simp [foldSlots,slotDurations]
  | cons e rest ih =>
    simp only [foldSlots,List.foldl_cons] at ih ⊢
    rw [ih,timeStatsUpdateOne_durations]
    by_cases after : timeAfter64 e.2 e.1 <;> simp [slotDurations,after]

theorem foldSlots_lastEvent (entries : List (UInt64 × UInt64)) (stats : Bch2TimeStats) :
    (foldSlots entries stats).lastEvent = (entries.getLast?.map (·.2)).getD stats.lastEvent := by
  induction entries generalizing stats with
  | nil => rfl
  | cons e rest ih =>
    simp only [foldSlots,List.foldl_cons] at ih ⊢
    rw [ih,timeStatsUpdateOne_lastEvent]
    cases last : rest.getLast? with
    | none => simp [List.getLast?_eq_none_iff.mp last]
    | some final => simp [List.getLast?_cons,last]

theorem foldSlots_buffer (entries : List (UInt64 × UInt64)) (stats : Bch2TimeStats) :
    (foldSlots entries stats).buffer = stats.buffer := by
  induction entries generalizing stats with
  | nil => rfl
  | cons e rest ih =>
    simp only [foldSlots,List.foldl_cons] at ih ⊢
    rw [ih,timeStatsUpdateOne_buffer]

theorem flushBuffers_eq (buffers : List TimeStatBuffer) (stats : Bch2TimeStats) (done : List TimeStatBuffer) :
    buffers.foldl (fun (acc : Bch2TimeStats × List TimeStatBuffer) b =>
        ((bch2TimeStatsClearBuffer acc.1 b).1,acc.2 ++ [(bch2TimeStatsClearBuffer acc.1 b).2])) (stats,done) =
      (foldSlots (buffers.flatMap (·.entries)) stats,done ++ buffers.map fun b => { b with nr := 0 }) := by
  induction buffers generalizing stats done with
  | nil => simp [foldSlots]
  | cons b rest ih =>
    rw [List.foldl_cons,ih]
    simp [bch2TimeStatsClearBuffer,foldSlots,List.foldl_append]

theorem bch2TimeStatsToText_pcpu {stats : Bch2TimeStats} {buffers : List TimeStatBuffer}
    (pcpu : stats.buffer = .pcpu buffers) :
    bch2TimeStatsToText stats = some { foldSlots (buffers.flatMap (·.entries)) stats with
      buffer := .pcpu (buffers.map fun b => { b with nr := 0 }) } := by
  unfold bch2TimeStatsToText
  rw [pcpu]
  dsimp only
  rw [flushBuffers_eq]
  rfl

theorem time_stats_print_folds_every_slot {stats : Bch2TimeStats} {buffers : List TimeStatBuffer}
    (pcpu : stats.buffer = .pcpu buffers) :
    ∃ printed printedAgain, bch2TimeStatsToText stats = some printed ∧
      bch2TimeStatsToText printed = some printedAgain ∧
      printed.durations = stats.durations ++ slotDurations (buffers.flatMap (·.entries)) ∧
      printedAgain.durations = printed.durations ++ slotDurations (buffers.flatMap (·.entries)) := by
  have again : (buffers.map fun b => { b with nr := 0 }).flatMap (·.entries) = buffers.flatMap (·.entries) := by
    simp [List.flatMap_map]
  refine ⟨_,_,bch2TimeStatsToText_pcpu pcpu,@bch2TimeStatsToText_pcpu _ (buffers.map fun b => { b with nr := 0 }) rfl,
    ?_,?_⟩
  · exact foldSlots_durations _ _
  · rw [again]
    exact foldSlots_durations _ _

end Flush

section Run
variable {fastEvents : List UInt64 → Bool} {nrCpus cpu : Nat} {stats : Bch2TimeStats} {start stop : UInt64}

theorem bch2TimeStatsUpdate_allocates (null : stats.buffer = .null)
    (fast : fastEvents (timeStatsUpdateOne stats start stop).freqs = true)
    (many : 1024 < (timeStatsUpdateOne stats start stop).durations.length) :
    bch2TimeStatsUpdate fastEvents true nrCpus stats cpu start stop =
      some { timeStatsUpdateOne stats start stop with buffer := .pcpu (List.replicate nrCpus timeStatBufferZero) } := by
  unfold bch2TimeStatsUpdate
  split
  · rename_i buffers pcpu
    rw [null] at pcpu
    cases pcpu
  · rename_i buffer notPcpu
    rw [if_pos ⟨null,fast,many,rfl⟩]

theorem bch2TimeStatsUpdate_buffers {alloc : Bool} {buffers : List TimeStatBuffer} {b : TimeStatBuffer}
    (pcpu : stats.buffer = .pcpu buffers) (slot : buffers[cpu]? = some b) (room : b.nr + 1 < TIME_STAT_BUFFER_NR) :
    bch2TimeStatsUpdate fastEvents alloc nrCpus stats cpu start stop =
      some { stats with buffer := .pcpu (buffers.set cpu ⟨b.nr + 1,b.entries.set b.nr (start,stop)⟩) } := by
  unfold bch2TimeStatsUpdate
  rw [pcpu]
  dsimp only
  rw [slot]
  dsimp only
  rw [if_neg (by omega),if_neg (by omega)]

theorem slotDurations_append (l r : List (UInt64 × UInt64)) :
    slotDurations (l ++ r) = slotDurations l ++ slotDurations r := List.filterMap_append

theorem slotDurations_zero (n : Nat) : slotDurations (List.replicate n (0,0)) = [] := by
  simp [slotDurations,timeAfter64]

theorem flatMap_one_sample (others : Nat) (start stop : UInt64) :
    ((List.replicate (others + 1) timeStatBufferZero).set 0
        ⟨timeStatBufferZero.nr + 1,timeStatBufferZero.entries.set timeStatBufferZero.nr (start,stop)⟩).flatMap
        (·.entries) =
      (start,stop) :: List.replicate (30 + others * 31) (0,0) := by
  have zeroSlots : timeStatBufferZero.entries = (0,0) :: List.replicate 30 (0,0) := rfl
  have zeroBuffers : (List.replicate others timeStatBufferZero).flatMap (·.entries) =
      List.replicate (others * 31) (0,0) := by
    rw [List.flatMap_replicate,show timeStatBufferZero.entries = List.replicate 31 (0,0) from rfl,
      List.flatten_replicate_replicate]
  have zeroNr : timeStatBufferZero.nr = 0 := rfl
  rw [List.replicate_succ,List.set_cons_zero,List.flatMap_cons,zeroBuffers,zeroSlots,zeroNr,List.set_cons_zero]
  dsimp only
  rw [List.cons_append,List.replicate_add]

theorem flatMap_cleared (buffers : List TimeStatBuffer) :
    (buffers.map fun b => { b with nr := 0 }).flatMap (·.entries) = buffers.flatMap (·.entries) := by
  simp [List.flatMap_map]

-- After the switch to per-cpu mode, one sample on cpu 0 and two prints: the
-- sample is folded in at both prints, and each print ends on the zeroed slots
-- after it, leaving last_event at 0. In general every print in per-cpu mode
-- folds every slot of every buffer, whatever its nr.
theorem time_stats_print_recounts_sample (stats : Bch2TimeStats) (start stop start' stop' : UInt64)
    (null : stats.buffer = .null) (many : 1024 ≤ stats.durations.length)
    (fast : fastEvents (timeStatsUpdateOne stats start stop).freqs = true)
    (after : timeAfter64 stop start = true) (after' : timeAfter64 stop' start' = true) (cpus : 0 < nrCpus) :
    (∃ switched buffered printed printedAgain,
      bch2TimeStatsUpdate fastEvents true nrCpus stats 0 start stop = some switched ∧
      bch2TimeStatsUpdate fastEvents true nrCpus switched 0 start' stop' = some buffered ∧
      bch2TimeStatsToText buffered = some printed ∧ bch2TimeStatsToText printed = some printedAgain ∧
      printedAgain.durations = stats.durations ++ [stop - start,stop' - start',stop' - start'] ∧
      printedAgain.lastEvent = 0) ∧
    ∀ (s : Bch2TimeStats) buffers, s.buffer = .pcpu buffers →
      ∃ printed printedAgain, bch2TimeStatsToText s = some printed ∧
        bch2TimeStatsToText printed = some printedAgain ∧
        printed.durations = s.durations ++ slotDurations (buffers.flatMap (·.entries)) ∧
        printedAgain.durations = printed.durations ++ slotDurations (buffers.flatMap (·.entries)) := by
  refine ⟨?_,fun s buffers pcpu => time_stats_print_folds_every_slot pcpu⟩
  obtain ⟨others,rfl⟩ : ∃ others, nrCpus = others + 1 := ⟨nrCpus - 1,by omega⟩
  have grown : (timeStatsUpdateOne stats start stop).durations = stats.durations ++ [stop - start] := by
    simp [after]
  have switch := @bch2TimeStatsUpdate_allocates fastEvents (others + 1) 0 stats start stop null fast
    (by rw [grown,List.length_append,List.length_singleton]; omega)
  have buffer := @bch2TimeStatsUpdate_buffers fastEvents (others + 1) 0
    { timeStatsUpdateOne stats start stop with buffer := .pcpu (List.replicate (others + 1) timeStatBufferZero) }
    start' stop' true _ timeStatBufferZero rfl (by simp [List.replicate_succ]) (by decide)
  refine ⟨_,_,_,_,switch,buffer,bch2TimeStatsToText_pcpu rfl,bch2TimeStatsToText_pcpu rfl,?_,?_⟩
  -- both prints fold the same slots: the sample, then zeros
  · have sample : slotDurations ((start',stop') :: List.replicate (30 + others * 31) (0,0)) = [stop' - start'] := by
      rw [← List.singleton_append,slotDurations_append,slotDurations_zero,List.append_nil]
      simp [slotDurations,after']
    rw [foldSlots_durations,foldSlots_durations,flatMap_cleared,flatMap_one_sample,sample]
    simp [after]
  · rw [foldSlots_lastEvent,flatMap_cleared,flatMap_one_sample]
    simp [List.getLast?_cons,List.getLast?_replicate]

-- 1024 samples of one unit with no buffer yet; the next sample, from 1 to 2,
-- switches to per-cpu mode on a single cpu, and a sample from 1 to 5 is then
-- folded in at both prints.
theorem time_stats_print_recounts_one_cpu :
    (∃ switched buffered printed printedAgain,
      bch2TimeStatsUpdate (fun _ => true) true 1 { bch2TimeStatsInit with durations := List.replicate 1024 1 } 0 1 2 =
        some switched ∧
      bch2TimeStatsUpdate (fun _ => true) true 1 switched 0 1 5 = some buffered ∧
      bch2TimeStatsToText buffered = some printed ∧ bch2TimeStatsToText printed = some printedAgain ∧
      printedAgain.durations = List.replicate 1024 1 ++ [1,4,4] ∧ printedAgain.lastEvent = 0) ∧
    ∀ (s : Bch2TimeStats) buffers, s.buffer = .pcpu buffers →
      ∃ printed printedAgain, bch2TimeStatsToText s = some printed ∧
        bch2TimeStatsToText printed = some printedAgain ∧
        printed.durations = s.durations ++ slotDurations (buffers.flatMap (·.entries)) ∧
        printedAgain.durations = printed.durations ++ slotDurations (buffers.flatMap (·.entries)) :=
  @time_stats_print_recounts_sample (fun _ => true) 1 { bch2TimeStatsInit with durations := List.replicate 1024 1 }
    1 2 1 5 rfl List.length_replicate.ge rfl (by decide) (by decide) (by decide)

end Run

end Bcachefs
