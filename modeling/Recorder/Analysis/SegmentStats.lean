import Mathlib.Algebra.Order.Group.Nat
import Mathlib.Algebra.Order.BigOperators.Group.List
import Recorder.Analysis.IndexRebuild
import Recorder.Analysis.IndexRow
import Recorder.Model.GroupStats

/-!
# The statistics of one segment

A reader counts the entries of a segment from the rows of its index, or from a scan of its
frames. `Counts` is what the statistics say about a list of times, and `Counts.add` the step
that both ways take: a row adds a block of entries, a scan one entry at a time.

An index the writer has written for an intact segment has a row for every frame if it is
accepted (`WrittenIndex.accepted`), so that both ways count the same times
(`indexScanFrames_counts`, `recPlayerScanFile_counts`).
-/

set_option autoImplicit false

namespace Recorder.Analysis

open Recorder.Model Recorder.Lib

/-! ## The accumulator -/

/-- The times of two lists together. -/
theorem SpansTimes.append {times block : List UInt64} {first last first' last' : UInt64}
    (h : times ≠ [] → SpansTimes times first last) (h' : SpansTimes block first' last') :
    SpansTimes (times ++ block) (if times.length = 0 ∨ first' < first then first' else first)
      (if times.length = 0 ∨ last' > last then last' else last) := by
  constructor
  · have hleast := isBest_append earlier_weakOrder (fun hne => (h hne).least) h'.least
    simpa only [earlier, decide_eq_true_eq] using hleast
  · have hgreatest := isBest_append later_weakOrder (fun hne => (h hne).greatest) h'.greatest
    simpa only [later, decide_eq_true_eq] using hgreatest

theorem spansTimes_singleton (t : UInt64) : SpansTimes [t] t t :=
  ⟨isBest_singleton earlier_weakOrder t, isBest_singleton later_weakOrder t⟩

/-- **What statistics say about the times of some entries**: how many there are, and the least
and the greatest; both are zero where there are none. -/
structure Counts (times : List UInt64) (stats : RecorderGroupStats) : Prop where
  count : stats.entryCount.toNat = times.length
  none : times = [] → stats.firstRealtimeUsec = 0 ∧ stats.lastRealtimeUsec = 0
  some : times ≠ [] → SpansTimes times stats.firstRealtimeUsec stats.lastRealtimeUsec

theorem counts_empty {stats : RecorderGroupStats} (hcount : stats.entryCount = 0)
    (hfirst : stats.firstRealtimeUsec = 0) (hlast : stats.lastRealtimeUsec = 0) :
    Counts [] stats :=
  ⟨by rw [hcount]; rfl, fun _ => ⟨hfirst, hlast⟩, fun h => absurd rfl h⟩

/-- The fields that are not about entries. -/
def SameFile (stats stats' : RecorderGroupStats) : Prop :=
  stats'.name = stats.name ∧ stats'.diskBytes = stats.diskBytes

theorem SameFile.trans {stats stats' stats'' : RecorderGroupStats} (h : SameFile stats stats')
    (h' : SameFile stats' stats'') : SameFile stats stats'' :=
  ⟨h'.1.trans h.1, h'.2.trans h.2⟩

/-- **A block of entries is added.** A count of zero stands for no times at all, whatever first
and last are, and a time of zero is a time like any other.
SOURCE: librecorder.c:1547-1561 -/
theorem Counts.add {times block : List UInt64} {stats : RecorderGroupStats}
    (h : Counts times stats) {count first last : UInt64} (hcount : count.toNat = block.length)
    (hspans : block ≠ [] → SpansTimes block first last)
    (hfits : times.length + block.length < 2 ^ 64) :
    ∃ stats', groupStatsAddEntries stats count first last = (true, stats') ∧
      Counts (times ++ block) stats' ∧ SameFile stats stats' := by
  unfold groupStatsAddEntries
  by_cases hzero : count = 0
  · have hblock : block = [] := by
      rw [hzero] at hcount
      exact List.length_eq_zero_iff.mp hcount.symm
    rw [if_pos hzero, hblock, List.append_nil]
    exact ⟨stats, rfl, h, rfl, rfl⟩
  · have hne : block ≠ [] := by
      intro hnil
      rw [hnil] at hcount
      exact hzero (UInt64.toNat_inj.mp hcount)
    have hold := h.count
    have hroom : ¬ uint64Max - stats.entryCount < count := by
      rw [UInt64.lt_iff_toNat_lt, UInt64.toNat_sub_of_le _ _ (by
        rw [UInt64.le_iff_toNat_le]
        exact Nat.le_of_lt_succ stats.entryCount.toNat_lt)]
      have hmax : uint64Max.toNat = 2 ^ 64 - 1 := rfl
      omega
    rw [if_neg hzero, if_neg hroom]
    refine ⟨_, rfl, ⟨?_, ?_, ?_⟩, rfl, rfl⟩
    · show (stats.entryCount + count).toNat = (times ++ block).length
      rw [UInt64.toNat_add, List.length_append]
      omega
    · intro hnil
      exact absurd (List.append_eq_nil_iff.mp hnil).2 hne
    · intro _
      have hempty : stats.entryCount = 0 ↔ times.length = 0 := by
        rw [← hold]
        exact UInt64.toNat_inj.symm
      simp only [hempty]
      exact SpansTimes.append h.some (hspans hne)

/-! ## From an index -/

/-- A record of the index says of a block of entries how many there are and when. -/
def RowCounts (record : IndexRecord) (block : List UInt64) : Prop :=
  record.entryCount.toNat = block.length ∧
    (block ≠ [] → SpansTimes block record.minRealtimeTs record.maxRealtimeTs)

/-- **The rows of an index are added**, one block of entries each. The induction is over the
blocks, with the times so far in front.
SOURCE: index.c:498-502 -/
theorem indexScanLoop_counts (file : Bytes) (blocks : List (List UInt64)) :
    ∀ (k : ℕ) (times : List UInt64) (stats : RecorderGroupStats), Counts times stats →
      (∀ i (hi : i < blocks.length), ∃ record, indexPreadFrame file (k + i) = some record ∧
        RowCounts record blocks[i]) →
      times.length + blocks.flatten.length < 2 ^ 64 →
      ∃ stats', indexScanLoop groupStatsIndexFrame file blocks.length k stats = (true, stats') ∧
        Counts (times ++ blocks.flatten) stats' ∧ SameFile stats stats' := by
  induction blocks with
  | nil =>
    intro k times stats h _ _
    rw [List.flatten_nil, List.append_nil]
    exact ⟨stats, rfl, h, rfl, rfl⟩
  | cons block blocks ih =>
    intro k times stats h hrows hfits
    rw [List.flatten_cons, List.length_append] at hfits
    obtain ⟨record, hrecord, hcount, hspans⟩ := hrows 0 (Nat.zero_lt_succ _)
    rw [Nat.add_zero] at hrecord
    have hcount' : record.entryCount.toUInt64.toNat = block.length := by
      rw [UInt32.toNat_toUInt64]
      exact hcount
    obtain ⟨stats₁, hadd, hcounts, hsame⟩ := h.add hcount' hspans (by omega)
    have hrest : ∀ i (hi : i < blocks.length), ∃ record,
        indexPreadFrame file (k + 1 + i) = some record ∧ RowCounts record blocks[i] := by
      intro i hi
      have hshift : k + 1 + i = k + (i + 1) := by omega
      rw [hshift]
      exact hrows (i + 1) (Nat.succ_lt_succ hi)
    obtain ⟨stats₂, hloop, hcounts', hsame'⟩ := ih (k + 1) (times ++ block) stats₁ hcounts hrest
      (by rw [List.length_append]; omega)
    refine ⟨stats₂, ?_, ?_, hsame.trans hsame'⟩
    · rw [List.length_cons, indexScanLoop, hrecord]
      simp only [groupStatsIndexFrame, hadd]
      exact hloop
    · rw [List.flatten_cons, ← List.append_assoc]
      exact hcounts'

/-! ## From a scan -/

/-- **The entries of a chunk are added** one by one.
SOURCE: librecorder.c:268-334, 1569-1573 -/
theorem scanEntryLoop_counts (entries : List (EntryData × UInt8)) :
    ∀ (times : List UInt64) (stats : RecorderGroupStats), Counts times stats →
      times.length + entries.length < 2 ^ 64 →
      ∃ stats', scanEntryLoop groupStatsEntry entries stats = (0, stats') ∧
        Counts (times ++ entries.map (·.1.realtimeTs)) stats' ∧ SameFile stats stats' := by
  induction entries with
  | nil =>
    intro times stats h _
    rw [List.map_nil, List.append_nil]
    exact ⟨stats, rfl, h, rfl, rfl⟩
  | cons entry entries ih =>
    intro times stats h hfits
    rw [List.length_cons] at hfits
    have hone : (1 : UInt64).toNat = [entry.1.realtimeTs].length := by
      rw [List.length_singleton]
      decide
    obtain ⟨stats₁, hadd, hcounts, hsame⟩ := h.add hone (fun _ => spansTimes_singleton _)
      (by rw [List.length_singleton]; omega)
    obtain ⟨stats₂, hloop, hcounts', hsame'⟩ := ih _ stats₁ hcounts
      (by rw [List.length_append, List.length_singleton]; omega)
    refine ⟨stats₂, ?_, ?_, hsame.trans hsame'⟩
    · have hcall : groupStatsEntry entry.1 stats = (true, stats₁) := hadd
      rw [scanEntryLoop, hcall]
      exact hloop
    · rw [List.map_cons, ← List.singleton_append, ← List.append_assoc]
      exact hcounts'

section Run

variable {σ : Type}

/-- The calls of a scan, made one after the other until one asks to stop. -/
def makeCalls (header : SegmentHeader) (cb : FrameCb σ) :
    List (SegmentFrameInfo × Bytes) → σ → Option σ
  | [], ctx => some ctx
  | call :: calls, ctx =>
    if (cb header call.1 call.2 ctx).1 = 0 then
      makeCalls header cb calls (cb header call.1 call.2 ctx).2
    else none

variable {env : ScanEnv σ} {cb : FrameCb σ}

/-- A frame that reaches a recording callback reaches any other. -/
theorem deliverFrame_call (hcb : env.cb = some cb) (p : Bytes) (info : SegmentFrameInfo)
    (index : UInt64) (ctx : σ) (calls : List (SegmentFrameInfo × Bytes)) :
    (deliverFrame (recordingEnv env) p info index calls = .ok calls ∧
        deliverFrame env p info index ctx = .ok ctx) ∨
      (∃ chunk, deliverFrame (recordingEnv env) p info index calls =
          .ok (calls ++ [(info, chunk)]) ∧
        ((cb env.header info chunk ctx).1 = 0 →
          deliverFrame env p info index ctx = .ok (cb env.header info chunk ctx).2)) ∨
      (deliverFrame (recordingEnv env) p info index calls = .stop ∧
        deliverFrame env p info index ctx = .stop) ∨
      ∃ rv errno, deliverFrame (recordingEnv env) p info index calls = .failed rv errno calls := by
  have henc : (recordingEnv env).encrypted = env.encrypted := rfl
  unfold deliverFrame
  rw [hcb, henc]
  simp only [recordingEnv, recordCalls]
  by_cases hmin : info.fileOffset < env.minFrameOffset
  · left
    simp only [hmin, if_true, and_self]
  · simp only [hmin, if_false]
    cases openPayload env.evp env.encrypted env.dek env.encryption.noncePrefix index info p with
    | none => exact .inr (.inr (.inr ⟨_, _, rfl⟩))
    | some payload =>
      simp only
      cases decompressPayload env.codec env.header env.dict info payload with
      | none => cases env.encrypted <;> simp
      | some chunk =>
        simp only
        by_cases hverify : env.codec.verifyChunk (env.header.flags &&& flagCompactEntries != 0)
            chunk = true
        · simp only [hverify, if_true]
          refine .inr (.inl ⟨chunk, rfl, fun hrv => ?_⟩)
          rw [hrv]
          rfl
        · simp only [hverify]
          cases env.encrypted <;> simp

/-- **A scan that ends well with a recording callback** ends well with one that accepts the
recorded calls, and hands them over in their order. -/
theorem scanFrom_makeCalls (hcb : env.cb = some cb) (buf : Bytes) :
    ∀ (st : ScanState σ) (calls : List (SegmentFrameInfo × Bytes))
      (st' : ScanState (List (SegmentFrameInfo × Bytes))),
      scanFrom (recordingEnv env) buf (withCalls st calls) = .done st' →
      ∃ rest, st'.ctx = calls ++ rest ∧
        ∀ ctx', makeCalls env.header cb rest st.ctx = some ctx' →
          scanFrom env buf st = .done
            ⟨st'.offset, st'.committedEnd, st'.footer, st'.frameIndex, st'.frames, ctx'⟩ := by
  intro st
  refine scanFrom_induction env buf
    (motive := fun st => ∀ calls st',
      scanFrom (recordingEnv env) buf (withCalls st calls) = .done st' →
      ∃ rest, st'.ctx = calls ++ rest ∧
        ∀ ctx', makeCalls env.header cb rest st.ctx = some ctx' →
          scanFrom env buf st = .done
            ⟨st'.offset, st'.committedEnd, st'.footer, st'.frameIndex, st'.frames, ctx'⟩) ?_ st
  intro st ih calls st' hdone
  -- the loop ends here, with the calls made so far
  have hends : ∀ st₁ : ScanState σ, st₁.ctx = st.ctx → st' = withCalls st₁ calls →
      scanFrom env buf st = .done st₁ →
      ∃ rest, st'.ctx = calls ++ rest ∧
        ∀ ctx', makeCalls env.header cb rest st.ctx = some ctx' →
          scanFrom env buf st = .done
            ⟨st'.offset, st'.committedEnd, st'.footer, st'.frameIndex, st'.frames, ctx'⟩ := by
    rintro st₁ hctx rfl hscan
    refine ⟨[], (List.append_nil calls).symm, fun ctx' hrun => ?_⟩
    rw [hscan]
    cases hrun
    rw [← hctx]
    rfl
  by_cases hlt : st.offset < buf.length
  · have hlt' : (withCalls st calls).offset < buf.length := hlt
    cases hs : Model.scanStep env.encrypted (buf.drop st.offset) st.offset with
    | footer f =>
      rw [scanFrom_of_footer (recordingEnv env) buf (withCalls st calls) f hlt' hs] at hdone
      cases hdone
      exact hends { st with
        footer := f
        committedEnd := st.offset + segmentFooterSize
        offset := st.offset + segmentFooterSize } rfl rfl (scanFrom_of_footer env buf st f hlt hs)
    | stop =>
      rw [scanFrom_of_stop (recordingEnv env) buf (withCalls st calls) hlt' hs] at hdone
      cases hdone
      exact hends _ rfl rfl (scanFrom_of_stop env buf st hlt hs)
    | corrupt =>
      rw [scanFrom_of_corrupt (recordingEnv env) buf (withCalls st calls) hlt' hs] at hdone
      cases hdone
    | frame info =>
      have hframe := scanFrom_of_frame env buf st info hlt hs
      rw [scanFrom_of_frame (recordingEnv env) buf (withCalls st calls) info hlt' hs,
        show (recordingEnv env).encrypted = env.encrypted from rfl] at hdone
      rcases deliverFrame_call hcb (buf.drop st.offset) info st.frameIndex st.ctx calls with
        ⟨hok, hok'⟩ | ⟨chunk, hok, hok'⟩ | ⟨hstop, hstop'⟩ | ⟨rv, errno, hfail⟩
      · simp only [withCalls, hok] at hdone
        simp only [hok'] at hframe
        by_cases hlast : (env.encrypted && st.frameIndex == 0xffffffffffffffff) = true
        · simp only [hlast, if_true] at hdone
          cases hdone
        · simp only [hlast] at hdone hframe
          rw [hframe]
          exact ih info st.ctx hlt hs calls st' hdone
      · simp only [withCalls, hok] at hdone
        by_cases hlast : (env.encrypted && st.frameIndex == 0xffffffffffffffff) = true
        · simp only [hlast, if_true] at hdone
          cases hdone
        · simp only [hlast] at hdone
          obtain ⟨rest, hrest, hrun⟩ := ih info (cb env.header info chunk st.ctx).2 hlt hs
            (calls ++ [(info, chunk)]) st' hdone
          refine ⟨(info, chunk) :: rest, by rw [hrest, List.append_assoc]; rfl, ?_⟩
          intro ctx' hcalls
          rw [makeCalls] at hcalls
          split at hcalls
          · rename_i hrv
            simp only [hok' hrv, hlast] at hframe
            rw [hframe]
            exact hrun ctx' hcalls
          · cases hcalls
      · simp only [withCalls, hstop] at hdone
        cases hdone
        simp only [hstop'] at hframe
        exact hends st rfl rfl hframe
      · simp only [withCalls, hfail] at hdone
        cases hdone
  · rw [scanFrom_of_end (recordingEnv env) buf (withCalls st calls) (Nat.le_of_not_lt hlt)] at hdone
    cases hdone
    exact hends st rfl rfl (scanFrom_of_end env buf st (Nat.le_of_not_lt hlt))

/-- The whole scan, with the key or of a plain segment.
SOURCE: segment.c:543-738 -/
theorem segmentScanPath_makeCalls (evp : EvpOps) (codec : CodecOps) {file : Bytes}
    {decryptor : Bool} {header : SegmentHeader} {offset : ℕ} {info : SegmentEncryptionInfo}
    {out : ScanOut} {ctx ctx' : σ} (hparse : segmentParseHeader file = some (header, offset, info))
    (hkey : decryptor = true ∨ header.flags &&& flagEncrypted = 0)
    (hscan : (segmentScanPath evp codec file true (some recordCalls) []).out = .ok out)
    (hrun : makeCalls header cb (segmentScanPath evp codec file true (some recordCalls) []).ctx
      ctx = some ctx') :
    segmentScanPath evp codec file decryptor (some cb) ctx = ⟨.ok out, ctx'⟩ := by
  have hloop : ∀ dek, (ScanEnd.result header (scanFrom (scanEnv evp codec file header offset info
        dek (some recordCalls)) file (ScanState.start offset []))).out = .ok out →
      makeCalls header cb (ScanEnd.result header (scanFrom (scanEnv evp codec file header offset
        info dek (some recordCalls)) file (ScanState.start offset []))).ctx ctx = some ctx' →
      ScanEnd.result header (scanFrom (scanEnv evp codec file header offset info
        dek (some cb)) file (ScanState.start offset ctx)) = ⟨.ok out, ctx'⟩ := by
    intro dek hout hcalls
    cases hend : scanFrom (scanEnv evp codec file header offset info dek (some recordCalls)) file
        (ScanState.start offset []) with
    | failed rv errno calls =>
      rw [hend] at hout
      cases hout
    | done st' =>
      rw [hend] at hout hcalls
      have henv : (scanEnv evp codec file header offset info dek (some cb)).cb = some cb := rfl
      obtain ⟨rest, hrest, hscan'⟩ := scanFrom_makeCalls henv file (ScanState.start offset ctx) []
        st' hend
      rw [List.nil_append] at hrest
      rw [hscan' ctx' (by rw [← hrest]; exact hcalls)]
      cases hout
      rfl
  simp only [segmentScanPath, length_ne_zero_of_parse hparse, if_false, segmentScanImpl, hparse,
    Option.isSome_some, Bool.and_true] at hscan hrun ⊢
  by_cases henc : (header.flags &&& flagEncrypted != 0) = true
  · have hdecryptor : decryptor = true :=
      hkey.resolve_right fun hplain => by simp [hplain] at henc
    simp only [henc, hdecryptor, if_true, Bool.not_true, Bool.false_eq_true, if_false]
      at hscan hrun ⊢
    cases hdek : evp.unwrapDek info.wrappedDek with
    | none =>
      rw [hdek] at hscan
      cases hscan
    | some dek =>
      rw [hdek] at hscan hrun
      exact hloop dek hscan hrun
  · simp only [henc] at hscan hrun ⊢
    exact hloop _ hscan hrun

end Run

/-! ## Intact segments -/

/-- **An intact segment** holds the frames a scan with the key hands over: their payloads open,
decode and pass the verifier up to the committed end. -/
structure IntactSegment (evp : EvpOps) (codec : CodecOps) (segment : Bytes)
    (header : SegmentHeader) (calls : List (SegmentFrameInfo × Bytes)) : Prop where
  parse : ∃ offset info, segmentParseHeader segment = some (header, offset, info)
  scan : ∃ out, metadataScan evp codec segment = .ok out ∧
    (segmentScanPath evp codec segment true (some recordCalls) []).out = .ok out ∧
    out.frames = calls.map (·.1)
  delivered : (segmentScanPath evp codec segment true (some recordCalls) []).ctx = calls

/-- The realtime of the entries of a chunk. -/
def chunkTimes (getters : ChunkGetters) (header : SegmentHeader) (chunk : Bytes) : List UInt64 :=
  (getters.entries (header.flags &&& flagCompactEntries != 0) chunk).map (·.1.realtimeTs)

/-- The realtime of the entries of a segment, frame by frame. -/
def storedTimes (getters : ChunkGetters) (header : SegmentHeader)
    (calls : List (SegmentFrameInfo × Bytes)) : List UInt64 :=
  (calls.map fun call => chunkTimes getters header call.2).flatten

section Segment

variable {evp : EvpOps} {codec : CodecOps} {getters : ChunkGetters} {decryptor : Bool}
  {segment : Bytes} {header : SegmentHeader} {calls : List (SegmentFrameInfo × Bytes)}

/-- The callback takes the calls of a scan one after the other. -/
theorem makeCalls_counts (getters : ChunkGetters) (header : SegmentHeader)
    (calls : List (SegmentFrameInfo × Bytes)) :
    ∀ (times : List UInt64) (stats : RecorderGroupStats), Counts times stats →
      times.length + (storedTimes getters header calls).length < 2 ^ 64 →
      ∃ stats', makeCalls header (scanFrameCb getters groupStatsEntry) calls stats = some stats' ∧
        Counts (times ++ storedTimes getters header calls) stats' ∧ SameFile stats stats' := by
  induction calls with
  | nil =>
    intro times stats h _
    rw [storedTimes, List.map_nil, List.flatten_nil, List.append_nil]
    exact ⟨stats, rfl, h, rfl, rfl⟩
  | cons call calls ih =>
    intro times stats h hfits
    have hcons : storedTimes getters header (call :: calls) =
        chunkTimes getters header call.2 ++ storedTimes getters header calls := rfl
    rw [hcons, List.length_append] at hfits
    have hlen : (chunkTimes getters header call.2).length =
        (getters.entries (header.flags &&& flagCompactEntries != 0) call.2).length :=
      List.length_map _
    obtain ⟨stats₁, hadd, hcounts, hsame⟩ := scanEntryLoop_counts
      (getters.entries (header.flags &&& flagCompactEntries != 0) call.2) times stats h (by omega)
    obtain ⟨stats₂, hrun, hcounts', hsame'⟩ := ih _ stats₁ hcounts (by
      rw [List.length_append, List.length_map]
      omega)
    refine ⟨stats₂, ?_, ?_, hsame.trans hsame'⟩
    · have hcall : scanFrameCb getters groupStatsEntry header call.1 call.2 stats = (0, stats₁) :=
        hadd
      rw [makeCalls, hcall, if_pos rfl]
      exact hrun
    · rw [hcons, ← List.append_assoc]
      exact hcounts'

/-- **A scan counts the entries of an intact segment.**
SOURCE: librecorder.c:1064-1089 -/
theorem recPlayerScanFile_counts (h : IntactSegment evp codec segment header calls)
    (hkey : decryptor = true ∨ header.flags &&& flagEncrypted = 0) {stats : RecorderGroupStats}
    (hstats : Counts [] stats) (hfits : (storedTimes getters header calls).length < 2 ^ 64) :
    ∃ stats', recPlayerScanFile evp codec getters decryptor segment groupStatsEntry stats =
        (true, stats') ∧
      Counts (storedTimes getters header calls) stats' ∧ SameFile stats stats' := by
  obtain ⟨offset, info, hparse⟩ := h.parse
  obtain ⟨out, -, hscan, -⟩ := h.scan
  obtain ⟨stats', hrun, hcounts, hsame⟩ := makeCalls_counts getters header calls [] stats hstats
    (by rw [List.length_nil]; omega)
  rw [← h.delivered] at hrun
  have hfile := segmentScanPath_makeCalls evp codec hparse hkey hscan hrun
  refine ⟨stats', ?_, hcounts, hsame⟩
  unfold recPlayerScanFile
  rw [hfile]

end Segment

/-! ## Written indexes -/

/-- `index_writer_append` for the calls of a scan in turn, where some of the appends fail. One
that fails has written nothing of its row. -/
def appendCalls (getters : ChunkGetters) (header : SegmentHeader) :
    List ((SegmentFrameInfo × Bytes) × Bool) → IndexWriter → IndexWriter
  | [], writer => writer
  | (call, appended) :: appends, writer =>
    appendCalls getters header appends
      (indexWriterAppend (if appended then .ok else .fail 0) getters writer header call.1 call.2).2

/-- The calls whose rows are in the file. -/
def appendedCalls (appends : List ((SegmentFrameInfo × Bytes) × Bool)) :
    List (SegmentFrameInfo × Bytes) :=
  (appends.filter (·.2)).map (·.1)

/-- A new index with some appends. -/
def indexOfCalls (getters : ChunkGetters) (header : SegmentHeader)
    (appends : List ((SegmentFrameInfo × Bytes) × Bool)) : IndexWriter :=
  appendCalls getters header appends
    { bytes := indexHeaderImage header.segmentSeq header.flags }

/-- **What the index writer has written** for a segment, whichever appends fail: a file without
a footer, after the first frames, or a closed one after all of them. An append that fails writes
nothing of its row, a close gets through, and the last append before a file is closed has not
failed; a file cut in the middle of a row is not among them. -/
inductive WrittenIndex (getters : ChunkGetters) (header : SegmentHeader)
    (calls : List (SegmentFrameInfo × Bytes)) : Bytes → Prop
  | left (appends : List ((SegmentFrameInfo × Bytes) × Bool)) : appends.map (·.1) <+: calls →
      WrittenIndex getters header calls (indexOfCalls getters header appends).bytes
  | closed (appends : List ((SegmentFrameInfo × Bytes) × Bool)) (committedEnd : UInt64) :
      appends.map (·.1) = calls → (∀ last ∈ appends.getLast?, last.2 = true) →
      WrittenIndex getters header calls
        (indexWriterClose true .ok (indexOfCalls getters header appends) committedEnd).2

/-- The rows that got through are in the file, and those in front of the first failure count.
SOURCE: index.c:204-214 -/
theorem appendCalls_spec (getters : ChunkGetters) (header : SegmentHeader)
    (appends : List ((SegmentFrameInfo × Bytes) × Bool)) : ∀ writer : IndexWriter,
      (appendCalls getters header appends writer).bytes =
        writer.bytes ++ ((appendedCalls appends).map (callRow getters header)).flatten ∧
      (appendCalls getters header appends writer).recordCount =
        if writer.error then writer.recordCount
        else writer.recordCount + UInt64.ofNat (appends.takeWhile (·.2)).length := by
  induction appends with
  | nil =>
    intro writer
    simp [appendCalls, appendedCalls]
  | cons append appends ih =>
    intro writer
    obtain ⟨call, appended⟩ := append
    obtain ⟨hbytes, hcount⟩ := ih
      (indexWriterAppend (if appended then .ok else .fail 0) getters writer header call.1 call.2).2
    rw [appendCalls, hbytes, hcount]
    cases appended <;> cases herr : writer.error <;>
      simp [indexWriterAppend, WriteOutcome.append, appendedCalls, callRow, herr]
    rw [UInt64.add_assoc, UInt64.add_comm 1]

theorem length_callRow_mem (getters : ChunkGetters) (header : SegmentHeader)
    (calls : List (SegmentFrameInfo × Bytes)) :
    ∀ row ∈ calls.map (callRow getters header), row.length = 83 := by
  intro row hrow
  obtain ⟨call, -, rfl⟩ := List.mem_map.mp hrow
  exact length_writeIndexFrame _ _ _ _

/-- The bytes and the count of an index. -/
theorem indexOfCalls_spec (getters : ChunkGetters) (header : SegmentHeader)
    (appends : List ((SegmentFrameInfo × Bytes) × Bool)) :
    (indexOfCalls getters header appends).bytes =
        indexHeaderImage header.segmentSeq header.flags ++
          ((appendedCalls appends).map (callRow getters header)).flatten ∧
      (indexOfCalls getters header appends).recordCount =
        UInt64.ofNat (appends.takeWhile (·.2)).length := by
  obtain ⟨hbytes, hcount⟩ := appendCalls_spec getters header appends
    { bytes := indexHeaderImage header.segmentSeq header.flags }
  refine ⟨hbytes, ?_⟩
  rw [indexOfCalls, hcount]
  simp only [Bool.false_eq_true, if_false, UInt64.zero_add]

/-- A closed index in its parts. -/
theorem indexOfCalls_layout (getters : ChunkGetters) (header : SegmentHeader)
    (appends : List ((SegmentFrameInfo × Bytes) × Bool)) (committedEnd : UInt64) :
    IndexLayout (indexWriterClose true .ok (indexOfCalls getters header appends) committedEnd).2
      header.segmentSeq header.flags ((appendedCalls appends).map (callRow getters header))
      (UInt64.ofNat (appends.takeWhile (·.2)).length) committedEnd := by
  obtain ⟨hbytes, hcount⟩ := indexOfCalls_spec getters header appends
  refine ⟨length_callRow_mem _ _ _, ?_⟩
  simp only [indexWriterClose, WriteOutcome.append, hbytes, hcount, Bool.not_true,
    Bool.false_eq_true, if_false]

/-- Where the last append got through and every row counts, all appends got through. -/
theorem appendedCalls_of_counted {appends : List ((SegmentFrameInfo × Bytes) × Bool)}
    (hlast : ∀ last ∈ appends.getLast?, last.2 = true)
    (hcount : (appends.takeWhile (·.2)).length = (appends.filter (·.2)).length) :
    appendedCalls appends = appends.map (·.1) := by
  have hsplit := List.takeWhile_append_dropWhile (p := (·.2)) (l := appends)
  have hfront : (appends.takeWhile (·.2)).filter (·.2) = appends.takeWhile (·.2) :=
    List.filter_eq_self.mpr (List.all_eq_true.mp List.all_takeWhile)
  -- nothing got through behind the first failure, so the last append is in front of it
  have hnone : (appends.dropWhile (·.2)).filter (·.2) = [] := by
    have hlen := congrArg (fun l => (List.filter (·.2) l).length) hsplit
    simp only [List.filter_append, List.length_append, hfront] at hlen
    exact List.length_eq_zero_iff.mp (by omega)
  have hrest : appends.dropWhile (·.2) = [] := by
    by_contra hne
    have hget := List.getLast?_append_of_ne_nil (appends.takeWhile (·.2)) hne
    rw [hsplit, List.getLast?_eq_some_getLast hne] at hget
    exact List.filter_eq_nil_iff.mp hnone _ (List.getLast_mem hne) (hlast _ hget)
  rw [hrest, List.append_nil] at hsplit
  rw [appendedCalls, ← hsplit, hfront]

/-- The rows behind the header of an index are read back. -/
theorem indexPreadFrame_rows (seq : UInt64) (flags : UInt32) {rows : List Bytes} (rest : Bytes)
    (hrows : ∀ row ∈ rows, row.length = 83) {i : ℕ} (hi : i < rows.length) :
    indexPreadFrame (indexHeaderImage seq flags ++ (rows.flatten ++ rest)) i =
      some (decodeIndexFrame rows[i]) := by
  have hrow : ((indexHeaderImage seq flags ++ (rows.flatten ++ rest)).drop (24 + i * 83)).take 83 =
      rows[i] := by
    rw [← List.drop_drop, List.drop_left' (length_indexHeaderImage seq flags)]
    exact drop_flatten_uniform rest hrows hi
  simp only [indexPreadFrame, indexHeaderSize, indexRecordSize, hrow]
  rw [if_pos (hrows _ (List.getElem_mem hi))]

/-- The end of a chain of rows is the sum of the lengths they name. -/
theorem validateChain_end {file : Bytes} {segmentSize : ℕ} (lens : List ℕ) :
    ∀ (index expectedEnd last : ℕ),
      (∀ i (hi : i < lens.length), ∃ record, indexPreadFrame file (index + i) = some record ∧
        record.frameLen.toNat = lens[i]) →
      validateChain file segmentSize lens.length index expectedEnd = some last →
      last = expectedEnd + lens.sum := by
  induction lens with
  | nil =>
    intro index expectedEnd last _ h
    cases h
    rfl
  | cons len lens ih =>
    intro index expectedEnd last hrows h
    obtain ⟨record, hrecord, hlen⟩ := hrows 0 (Nat.zero_lt_succ _)
    rw [Nat.add_zero] at hrecord
    rw [List.length_cons, validateChain, hrecord] at h
    simp only at h
    split at h
    · cases h
    · have hrest : ∀ i (hi : i < lens.length), ∃ record,
          indexPreadFrame file (index + 1 + i) = some record ∧ record.frameLen.toNat = lens[i] := by
        intro i hi
        have hshift : index + 1 + i = index + (i + 1) := by omega
        rw [hshift]
        exact hrows (i + 1) (Nat.succ_lt_succ hi)
      rw [ih (index + 1) _ last hrest h, List.sum_cons, ← Nat.add_assoc]
      congr 2

section Index

variable {evp : EvpOps} {codec : CodecOps} {getters : ChunkGetters}
  {segment : Bytes} {header : SegmentHeader} {calls : List (SegmentFrameInfo × Bytes)}

/-- The frames a metadata scan reports lie in the file one behind the other. -/
theorem scanFrom_frames_inside {σ : Type} (env : ScanEnv σ) (hcb : env.cb = none) (buf : Bytes)
    (st' : ScanState σ) : ∀ st, scanFrom env buf st = .done st' → st.offset ≤ buf.length →
      ∃ rest, st'.frames = st.frames ++ rest ∧
        st.offset + (rest.map (·.frameLen.toNat)).sum ≤ buf.length ∧
        ∀ info ∈ rest, 20 ≤ info.frameLen.toNat := by
  refine scanFrom_done_induction (motive := fun st => st.offset ≤ buf.length →
    ∃ rest, st'.frames = st.frames ++ rest ∧
      st.offset + (rest.map (·.frameLen.toNat)).sum ≤ buf.length ∧
      ∀ info ∈ rest, 20 ≤ info.frameLen.toNat) env hcb buf st' ?_ ?_ ?_ ?_
  · rintro st - rfl hle
    exact ⟨[], (List.append_nil _).symm, hle, by simp⟩
  · rintro st f - - rfl hle
    exact ⟨[], (List.append_nil _).symm, hle, by simp⟩
  · rintro st - - rfl hle
    exact ⟨[], (List.append_nil _).symm, hle, by simp⟩
  · rintro st info hlt hs - - ih hle
    obtain ⟨h20, hlen⟩ := frameLen_ge_of_scanStep hs
    rw [List.length_drop] at hlen
    have hnext : st.offset + info.frameLen.toNat ≤ buf.length := by omega
    obtain ⟨rest, hframes, hsum, hrest⟩ := ih hnext
    refine ⟨info :: rest, ?_, ?_, ?_⟩
    · rw [hframes, ScanState.pass, List.append_assoc]
      rfl
    · rw [List.map_cons, List.sum_cons, ← Nat.add_assoc]
      exact hsum
    · intro info' hinfo'
      cases List.mem_cons.mp hinfo' with
      | inl heq => rw [heq]; exact h20
      | inr hmem => exact hrest info' hmem

/-- The frames of an intact segment, behind its header. -/
theorem IntactSegment.frames_inside (h : IntactSegment evp codec segment header calls)
    (hsmall : framesStart segment < 2 ^ 32) :
    framesStart segment + (calls.map (·.1.frameLen.toNat)).sum ≤ segment.length ∧
      ∀ call ∈ calls, 20 ≤ call.1.frameLen.toNat := by
  obtain ⟨out, hmeta, -, hframes⟩ := h.scan
  obtain ⟨header', offset, info, st', hparse, hdone, rfl⟩ :=
    (metadataScan_eq_ok_iff _ _ _ _).mp hmeta
  obtain ⟨⟨-, hle, -⟩, -, hoffset⟩ := (segmentParseHeader_eq_some_iff _ _ _ _).mp hparse
  rw [Nat.mod_eq_of_lt hsmall] at hoffset
  obtain ⟨rest, hrest, hsum, h20⟩ := scanFrom_frames_inside _ rfl segment st' _ hdone
    (by rw [hoffset]; exact hle)
  rw [show (ScanState.start offset ()).frames = [] from rfl, List.nil_append] at hrest
  have hcalls : rest = calls.map (·.1) := by
    rw [← hrest]
    exact hframes
  rw [hcalls, List.map_map] at hsum
  refine ⟨?_, fun call hcall => h20 call.1 ?_⟩
  · rw [← hoffset]
    exact hsum
  · rw [hcalls]
    exact List.mem_map_of_mem hcall

/-- Lengths of at least twenty leave nothing out of a sum that is not smaller. -/
theorem eq_of_sublist_of_sum_le {calls kept : List (SegmentFrameInfo × Bytes)}
    (h : kept.Sublist calls) (h20 : ∀ call ∈ calls, 20 ≤ call.1.frameLen.toNat)
    (hsum : (calls.map (·.1.frameLen.toNat)).sum ≤ (kept.map (·.1.frameLen.toNat)).sum) :
    kept = calls := by
  induction h with
  | slnil => rfl
  | cons call hsub ih =>
    -- the call that is left out makes the other sum larger
    have hle := (hsub.map (·.1.frameLen.toNat)).sum_le_sum fun _ _ => Nat.zero_le _
    have hcall := h20 call List.mem_cons_self
    rw [List.map_cons, List.sum_cons] at hsum
    omega
  | cons_cons call hsub ih =>
    rw [List.map_cons, List.sum_cons, List.map_cons, List.sum_cons] at hsum
    rw [ih (fun c hc => h20 c (List.mem_cons_of_mem _ hc)) (by omega)]

/-- What is accepted of an index without a footer ends where the segment ends. -/
theorem chain_of_open {file : Bytes} {count : ℕ} (h : OpenIndexAccepted file segment count) :
    framesStart segment < 2 ^ 32 ∧
      validateChain file segment.length count 0 (framesStart segment) = some segment.length := by
  have hvalid := h.segment_ok
  unfold indexValidateSegment at hvalid
  cases hread : segmentReadPathHeader segment with
  | none =>
    rw [hread] at hvalid
    cases hvalid
  | some r =>
    obtain ⟨header', dataOffset, size⟩ := r
    obtain ⟨hlimit, ⟨info, hparse⟩, rfl⟩ := (segmentReadPathHeader_eq_some_iff _ _ _ _).mp hread
    have hsmall : framesStart segment < 2 ^ 32 := lt_of_le_of_lt hlimit (by decide)
    obtain ⟨-, -, hoffset⟩ := (segmentParseHeader_eq_some_iff _ _ _ _).mp hparse
    rw [Nat.mod_eq_of_lt hsmall] at hoffset
    rw [hread] at hvalid
    simp only at hvalid
    split at hvalid
    · cases hvalid
    · split at hvalid
      · cases hvalid
      · rename_i last hchain
        rw [beq_iff_eq] at hvalid
        rw [hoffset, hvalid] at hchain
        exact ⟨hsmall, hchain⟩

/-- **A written index that is accepted has a row for every frame.** Without a footer the chain
of its rows must end at the end of the segment; with one, all rows must count.
SOURCE: index.c:318-425 -/
theorem WrittenIndex.accepted (hintact : IntactSegment evp codec segment header calls)
    {file : Bytes} (hindex : WrittenIndex getters header calls file) {count : ℕ}
    (hopen : indexOpenRead file segment = some count) :
    count = calls.length ∧ ∀ i (hi : i < calls.length),
      indexPreadFrame file i = some (decodeIndexFrame (callRow getters header calls[i])) := by
  obtain ⟨-, -, -, hfooter, hnofooter⟩ := (indexOpenRead_eq_some_iff _ _ _).mp hopen
  cases hindex with
  | closed appends committedEnd hcalls hlast =>
    have hlayout := indexOfCalls_layout getters header appends committedEnd
    obtain ⟨hcount, hlen, -, -⟩ := hfooter hlayout.hasIndexFooter
    have hlen' := hlayout.length_eq
    rw [hlayout.footer_fields.2.1, UInt64.toNat_ofNat'] at hcount
    rw [List.length_map, appendedCalls, List.length_map] at hlen'
    have hle : (appends.takeWhile (·.2)).length ≤ (appends.filter (·.2)).length := by
      have hsub := (List.takeWhile_sublist (l := appends) (·.2)).filter (·.2)
      rw [List.filter_eq_self.mpr (List.all_eq_true.mp List.all_takeWhile)] at hsub
      exact hsub.length_le
    have hmod := Nat.mod_le (appends.takeWhile (·.2)).length (2 ^ 64)
    have hall := appendedCalls_of_counted hlast (by omega)
    rw [hall, hcalls] at hlayout
    have hlength := congrArg List.length hall
    rw [hcalls, appendedCalls, List.length_map] at hlength
    refine ⟨by omega, fun i hi => ?_⟩
    rw [hlayout.pread (by rw [List.length_map]; exact hi), List.getElem_map]
  | left appends hpre =>
    set kept := appendedCalls appends with hkept
    have hsub : kept.Sublist calls :=
      (List.filter_sublist.map Prod.fst).trans hpre.sublist
    have hbytes : (indexOfCalls getters header appends).bytes =
        indexHeaderImage header.segmentSeq header.flags ++
          (kept.map (callRow getters header)).flatten := (indexOfCalls_spec _ _ _).1
    rw [hbytes] at hfooter hnofooter ⊢
    have hlen : (indexHeaderImage header.segmentSeq header.flags ++
        (kept.map (callRow getters header)).flatten).length = 24 + kept.length * 83 := by
      rw [List.length_append, length_indexHeaderImage,
        length_flatten_uniform (length_callRow_mem _ _ _), List.length_map]
    have hread : ∀ i (hi : i < kept.length),
        indexPreadFrame (indexHeaderImage header.segmentSeq header.flags ++
          (kept.map (callRow getters header)).flatten) i =
          some (decodeIndexFrame (callRow getters header kept[i])) := by
      intro i hi
      have hrow := indexPreadFrame_rows header.segmentSeq header.flags []
        (length_callRow_mem getters header kept) (by rw [List.length_map]; exact hi)
      rw [List.append_nil] at hrow
      rw [hrow, List.getElem_map]
    by_cases hhas : HasIndexFooter (indexHeaderImage header.segmentSeq header.flags ++
        (kept.map (callRow getters header)).flatten)
    · have hclosed := (hfooter hhas).length_eq
      omega
    · have haccepted := hnofooter hhas
      have hcount : count = kept.length := by
        have hopenLen := haccepted.length_eq
        omega
      obtain ⟨hsmall, hchain⟩ := chain_of_open haccepted
      obtain ⟨hinside, h20⟩ := hintact.frames_inside hsmall
      have hend := validateChain_end (kept.map (·.1.frameLen.toNat)) 0
        (framesStart segment) segment.length (fun i hi => ?_)
        (by rw [List.length_map, ← hcount]; exact hchain)
      · have hall : kept = calls := eq_of_sublist_of_sum_le hsub h20 (by omega)
        rw [hall] at hcount hread ⊢
        exact ⟨hcount, hread⟩
      · rw [List.length_map] at hi
        refine ⟨_, by rw [Nat.zero_add]; exact hread i hi, ?_⟩
        rw [List.getElem_map]
        have hplace := rowPlace_writeIndexFrame getters header kept[i].1 kept[i].2
        exact congrArg (fun place => place.2.toNat) hplace

/-- **An accepted index counts the entries of its segment.**
SOURCE: index.c:489-507 -/
theorem indexScanFrames_counts (hgetters : ∀ compact chunk, (getters.entries compact chunk).length <
      2 ^ 32) (hintact : IntactSegment evp codec segment header calls) {file : Bytes}
    (hindex : WrittenIndex getters header calls file)
    (hopen : (indexOpenRead file segment).isSome) {stats : RecorderGroupStats}
    (hstats : Counts [] stats) (hfits : (storedTimes getters header calls).length < 2 ^ 64) :
    ∃ stats', indexScanFrames groupStatsIndexFrame (some file) segment stats = (true, stats') ∧
      Counts (storedTimes getters header calls) stats' ∧ SameFile stats stats' := by
  obtain ⟨count, hcount⟩ := Option.isSome_iff_exists.mp hopen
  obtain ⟨rfl, hread⟩ := hindex.accepted hintact hcount
  have hrows : ∀ i (hi : i < (calls.map fun call => chunkTimes getters header call.2).length),
      ∃ record, indexPreadFrame file (0 + i) = some record ∧
        RowCounts record (calls.map fun call => chunkTimes getters header call.2)[i] := by
    intro i hi
    rw [List.length_map] at hi
    rw [Nat.zero_add, List.getElem_map]
    refine ⟨_, hread i hi, ?_⟩
    have hdescribes := index_row_describes_frame getters header calls[i].1 calls[i].2
    have htimes : chunkTimes getters header calls[i].2 =
        ((getters.entries (header.flags &&& flagCompactEntries != 0) calls[i].2).map (·.1)).map
          (·.realtimeTs) := by
      rw [List.map_map]
      rfl
    constructor
    · rw [htimes, List.length_map]
      exact hdescribes.count (by rw [List.length_map]; exact hgetters _ _)
    · intro hne
      rw [htimes] at hne ⊢
      exact hdescribes.realtime fun hnil => hne (by rw [hnil]; rfl)
  obtain ⟨stats', hloop, hcounts, hsame⟩ := indexScanLoop_counts file _ 0 [] stats hstats hrows
    (by rw [List.length_nil, Nat.zero_add]; exact hfits)
  refine ⟨stats', ?_, hcounts, hsame⟩
  rw [List.length_map] at hloop
  simp only [indexScanFrames, hcount]
  exact hloop

end Index

end Recorder.Analysis
