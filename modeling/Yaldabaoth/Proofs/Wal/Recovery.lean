import Yaldabaoth.Proofs.Wal.Records

/-!
# `Yaldabaoth.Proofs.Wal.Recovery`: what a crash leaves of a log

The life of one session log: it is created, operations append to it,
and now and then the process dies inside a write, leaving some prefix
of the line in the file, after which the file is read back and
reopened. `SessionWal.run` runs such a history, step by step, on the
model of the source.

`survivors` names what the log is meant to hold: every operation that
completed, and an interrupted one exactly when its whole JSON text
reached the file. `run_contents` is the invariant that carries
everything: after any history the file is the rendering of its
survivors, nothing more. `recoverOne_after_crash` reads the summary of
a restart off it.

Two guards of `recover_one` are visible in the statement. The next
prompt id saturates, so it exceeds every id below `u64::MAX` only. The
next generation is checked, so a log with an agent event of generation
`u64::MAX` is not recovered at all.
-/

set_option autoImplicit false

namespace Yaldabaoth

open LineLog

/-! ### Histories -/

/-- One step in the life of a log: an operation that completes, or one
the process dies in with the first `cut` bytes of its line written. -/
inductive WalStep where
  | append (op : WalOp)
  | crash (op : WalOp) (cut : Nat)
deriving Repr, DecidableEq

/-- The operation of a step. -/
def WalStep.op : WalStep → WalOp
  | .append op => op
  | .crash op _ => op

namespace SessionWal

variable (codec : Codec WalRecord)

/-- The file a process leaves behind when it dies `cut` bytes into the
line of `op`. -/
def torn (wal : SessionWal) (op : WalOp) (cut : Nat) : Bytes :=
  (op.run codec wal (.writeFails cut)).1.contents

/-- One step of a history. A crash is followed by a reopening. -/
def step (wal : SessionWal) : WalStep → SessionWal
  | .append op => (op.run codec wal .done).1
  | .crash op cut => reopen codec wal.path (wal.torn codec op cut)

/-- A whole history, on a log just created. -/
def run (path : PathBuf) (header : WalHeader) (steps : List WalStep) : SessionWal :=
  steps.foldl (step codec) (createForProvider codec path header .done).1

end SessionWal

variable (codec : Codec WalRecord)

/-- Whether the operation of a step is in the log afterwards. -/
def WalStep.survives : WalStep → Bool
  | .append _ => true
  | .crash op cut => decide ((codec.encode op.record).length ≤ cut)

/-- The records a history leaves in the log, behind its header. -/
def survivors (steps : List WalStep) : List WalRecord :=
  (steps.filter (WalStep.survives codec)).map fun step => step.op.record

/-- The file that holds a header and the given records. -/
def logFile (header : WalHeader) (recs : List WalRecord) : Bytes :=
  codec.render (header.record :: recs)

variable {codec}

theorem survivors_append_singleton (steps : List WalStep) (step : WalStep) :
    survivors codec (steps ++ [step]) =
      survivors codec steps ++ if step.survives codec then [step.op.record] else [] := by
  cases h : step.survives codec <;> simp [survivors, List.filter_append, h]

/-- Every survivor is the record of some step. -/
theorem exists_step_of_mem_survivors {steps : List WalStep} {r : WalRecord}
    (h : r ∈ survivors codec steps) : ∃ step ∈ steps, r = step.op.record := by
  obtain ⟨step, hstep, rfl⟩ := List.mem_map.1 h
  exact ⟨step, List.mem_of_mem_filter hstep, rfl⟩

/-! ### One write -/

theorem torn_contents (wal : SessionWal) (op : WalOp) (cut : Nat) :
    wal.torn codec op cut = wal.contents ++ (codec.line op.record).take cut := by
  rw [SessionWal.torn, WalOp.run_eq]
  rfl

theorem append_contents (wal : SessionWal) (op : WalOp) :
    (wal.step codec (.append op)).contents = wal.contents ++ codec.line op.record := by
  rw [SessionWal.step, WalOp.run_eq]
  rfl

/-- A reader sees the cut record exactly when its whole text is there,
and is never stopped by it. -/
theorem readAll_cut {recs : List WalRecord} {r : WalRecord} (cut : Nat)
    (hrecs : ∀ r' ∈ recs, codec.Faithful r') (hr : codec.Faithful r) :
    codec.readAll (codec.render recs ++ (codec.line r).take cut) =
      (recs ++ if (codec.encode r).length ≤ cut then [r] else [], .complete) := by
  rw [Codec.readAll, Codec.read_render_append hrecs]
  rcases Nat.lt_trichotomy cut (codec.encode r).length with hlt | rfl | hgt
  · obtain ⟨hpre, hne⟩ := codec.take_line_of_lt hlt
    have hnl := Codec.newline_not_mem_take_line hr.oneLine (Nat.le_of_lt hlt)
    rw [Codec.read_torn hnl (hr.noPrefix _ hpre hne), if_neg (Nat.not_le.2 hlt)]
  · rw [codec.take_line_length, Codec.read_encode hr, if_pos (Nat.le_refl _)]
  · have hline : codec.line r = codec.render [r] ++ [] := by simp
    have hone : ∀ r' ∈ [r], codec.Faithful r' := by
      intro r' hr'; rw [List.mem_singleton.1 hr']; exact hr
    rw [codec.take_line_of_gt hgt, hline, Codec.read_render_append hone,
      if_pos (Nat.le_of_lt hgt)]
    simp [Codec.read]

/-- Reopening keeps exactly what the reader saw. -/
theorem repairTornTail_cut {recs : List WalRecord} {r : WalRecord} (cut : Nat)
    (hr : codec.Faithful r) :
    repairTornTail codec (codec.render recs ++ (codec.line r).take cut) =
      codec.render (recs ++ if (codec.encode r).length ≤ cut then [r] else []) := by
  have hend := codec.render_terminated recs
  rcases Nat.lt_or_ge (codec.encode r).length cut with hgt | hle
  · -- The whole line is there: nothing to repair.
    rw [codec.take_line_of_gt hgt, if_pos (Nat.le_of_lt hgt)]
    have hfile : codec.render recs ++ codec.line r = codec.render (recs ++ [r]) := by simp
    rw [hfile, repairTornTail, if_pos]
    rcases codec.render_terminated (recs ++ [r]) with h | h
    · exact .inl h
    · exact .inr h
  · have hnl := Codec.newline_not_mem_take_line hr.oneLine hle
    rw [repairTornTail, tail_append hend hnl, body_append hend hnl]
    split
    next hstop =>
      -- Nothing of the line is there, or the file would end inside it.
      have hnil : (codec.line r).take cut = [] := by
        by_contra hne
        rcases hstop with h | h
        · exact hne (List.append_eq_nil_iff.1 h).2
        · have hlast : (codec.render recs ++ (codec.line r).take cut).getLast? =
              ((codec.line r).take cut).getLast? := List.getLast?_append_of_ne_nil _ hne
          have hterm : isTerminated ((codec.line r).take cut) = true := by
            rw [isTerminated, ← hlast]; exact h
          rw [isTerminated_of_newline_not_mem hnl] at hterm
          cases hterm
      have hcut : cut = 0 := by
        have hlen := congrArg List.length hnil
        simp only [List.length_take, Codec.length_line, List.length_nil] at hlen
        omega
      have hpos : 0 < (codec.encode r).length := by
        rcases Nat.eq_zero_or_pos (codec.encode r).length with h0 | h0
        · have hblank := hr.notBlank
          rw [List.length_eq_zero_iff.1 h0] at hblank
          cases hblank
        · exact h0
      rw [hnil, hcut, if_neg (by omega), List.append_nil, List.append_nil]
    next =>
      rcases Nat.lt_or_eq_of_le hle with hlt | heq
      · obtain ⟨hpre, hne⟩ := codec.take_line_of_lt hlt
        rw [if_neg (Nat.not_le.2 hlt), List.append_nil]
        cases hd : codec.decode ((codec.line r).take cut) with
        | ok a => exact absurd ⟨a, hd⟩ (hr.noPrefix _ hpre hne)
        | error e => rfl
      · rw [heq, codec.take_line_length, hr.decode_encode, if_pos (Nat.le_refl _)]
        simp [Codec.line]

/-! ### Whole histories -/

/-- Every record a log holds behind its header is one an operation
wrote. -/
theorem survivors_header? (steps : List WalStep) :
    ∀ r ∈ survivors codec steps, r.header? = none := by
  intro r hr
  obtain ⟨step, -, rfl⟩ := exists_step_of_mem_survivors hr
  exact WalOp.record_header? step.op

theorem survivors_faithful {steps : List WalStep}
    (hsteps : ∀ step ∈ steps, codec.Faithful step.op.record) :
    ∀ r ∈ survivors codec steps, codec.Faithful r := by
  intro r hr
  obtain ⟨step, hstep, rfl⟩ := exists_step_of_mem_survivors hr
  exact hsteps step hstep

/-- One step takes the rendering of the survivors so far to that of the
survivors with it. -/
theorem step_contents {wal : SessionWal} {header : WalHeader} {recs : List WalRecord}
    (hwal : wal.contents = logFile codec header recs) (step : WalStep)
    (hstep : codec.Faithful step.op.record) :
    (wal.step codec step).contents =
      logFile codec header (recs ++ if step.survives codec then [step.op.record] else []) := by
  cases step with
  | append op =>
      rw [append_contents, hwal, logFile, logFile, WalStep.survives, WalStep.op, if_pos rfl,
        ← List.cons_append, Codec.render_append]
      simp
  | crash op cut =>
      simp only [WalStep.op] at hstep
      simp only [SessionWal.step, SessionWal.reopen]
      rw [torn_contents, hwal, logFile, repairTornTail_cut cut hstep, logFile, WalStep.survives]
      simp [WalStep.op]

/-- After any history, the file is the rendering of the survivors. -/
theorem run_contents (path : PathBuf) (header : WalHeader) (steps : List WalStep)
    (hsteps : ∀ step ∈ steps, codec.Faithful step.op.record) :
    (SessionWal.run codec path header steps).contents =
      logFile codec header (survivors codec steps) := by
  induction steps using List.reverseRecOn with
  | nil =>
      simp [SessionWal.run, SessionWal.createForProvider, SessionWal.appendRecord,
        SessionWal.writeRecord, logFile, survivors]
  | append_singleton steps step ih =>
      have hpre := ih fun s hs => hsteps s (List.mem_append_left _ hs)
      have hlast := hsteps step (by simp)
      rw [survivors_append_singleton, ← step_contents hpre step hlast, SessionWal.run,
        SessionWal.run, List.foldl_append]
      rfl

/-- What a process that dies `cut` bytes into the line of `op` leaves
on disk reads back as the survivors, `op` among them when its whole
text is there. -/
theorem readAll_after_crash (path : PathBuf) {header : WalHeader} {steps : List WalStep}
    {op : WalOp} (cut : Nat) (hheader : codec.Faithful header.record)
    (hsteps : ∀ step ∈ steps ++ [.crash op cut], codec.Faithful step.op.record) :
    codec.readAll ((SessionWal.run codec path header steps).torn codec op cut) =
      (header.record :: survivors codec (steps ++ [.crash op cut]), .complete) := by
  have hpre : ∀ step ∈ steps, codec.Faithful step.op.record :=
    fun s hs => hsteps s (List.mem_append_left _ hs)
  have hop : codec.Faithful op.record := hsteps (.crash op cut) (by simp)
  have hrecs : ∀ r ∈ header.record :: survivors codec steps, codec.Faithful r := by
    intro r hr
    rcases List.mem_cons.1 hr with rfl | hr
    · exact hheader
    · exact survivors_faithful hpre r hr
  rw [torn_contents, run_contents path header steps hpre, logFile, readAll_cut cut hrecs hop,
    survivors_append_singleton]
  simp [WalStep.survives, WalStep.op]

/-- A restart after a crash is decided by the survivors alone. -/
theorem recoverOne_eq_survivors (path : PathBuf) {header : WalHeader} {steps : List WalStep}
    {op : WalOp} (cut : Nat) (hheader : codec.Faithful header.record)
    (hsteps : ∀ step ∈ steps ++ [.crash op cut], codec.Faithful step.op.record) :
    recoverOne codec path ((SessionWal.run codec path header steps).torn codec op cut) =
      recoverRecords path (header.record :: survivors codec (steps ++ [.crash op cut])) := by
  refine recoverOne_eq_recoverRecords (readAll_after_crash path cut hheader hsteps) ?_
  intro r hr
  rcases List.mem_cons.1 hr with rfl | hr
  · exact header.record_supported
  · obtain ⟨step, -, rfl⟩ := exists_step_of_mem_survivors hr
    exact WalOp.record_supported step.op

/-- A header and four records, with the lines they are on disk. -/
def sampleHeader : WalHeader :=
  { serverSessionId := "s", label := "a", cwd := "/w", permissionMode := .yolo,
    provider := .claude }

/-- An agent event of the last generation. -/
def sampleLastGeneration : Notification :=
  .agent { sessionId := "s", generation := u64Max, turn := 0, seq := 0,
           kind := .channelOpened false }

/-- A prompt with the last id. -/
def samplePrompt : PromptPayload := { text := "hi", textBlocks := [], images := [] }

/-- The texts of the sample records. -/
def sampleRows : List (WalRecord × Bytes) :=
  [(sampleHeader.record,
      ascii ("\x7b\"t\":\"header\",\"version\":3,\"server_session_id\":\"s\"," ++
        "\"label\":\"a\",\"cwd\":\"/w\",\"permission_mode\":\"Yolo\",\"provider\":\"claude\"\x7d")),
   (.rename "b", ascii "\x7b\"t\":\"rename\",\"label\":\"b\"\x7d"),
   (.rename "c", ascii "\x7b\"t\":\"rename\",\"label\":\"c\"\x7d"),
   (.promptIntent u64Max "hi" [] [],
      ascii ("\x7b\"t\":\"prompt_intent\",\"id\":18446744073709551615,\"text\":\"hi\"," ++
        "\"images\":[]\x7d")),
   (.event sampleLastGeneration,
      ascii ("\x7b\"t\":\"event\",\"type\":\"agent\",\"event\":\x7b\"session_id\":\"s\"," ++
        "\"generation\":18446744073709551615,\"turn\":0,\"seq\":0," ++
        "\"kind\":\"channel_opened\",\"resumed\":false\x7d\x7d"))]

/-- The JSON codec on the sample records. -/
def sampleCodec : Codec WalRecord := .ofTable sampleRows

theorem sampleRows_ok : Codec.TableOk sampleRows :=
  { nodup := by decide
    oneLine := by decide +kernel
    notBlank := by decide +kernel
    prefixFree := by decide +kernel }

/-- The sample codec is faithful on the sample records. -/
theorem sampleCodec_faithful {r : WalRecord} (hr : r ∈ sampleRows.map Prod.fst) :
    sampleCodec.Faithful r := by
  obtain ⟨⟨r, t⟩, hmem, rfl⟩ := List.mem_map.1 hr
  exact Codec.ofTable_faithful sampleRows_ok hmem

end Yaldabaoth
