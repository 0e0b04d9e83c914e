import Yaldabaoth.Model.SessionWal

/-!
# `Yaldabaoth.Proofs.Wal.Records`: recovery as a function of the records

`recoverOne` walks a file line by line and folds ten values at once.
This file separates the two. `walkOf` states in closed form what the
fold holds after a list of records: the last header, the last value of
every setting, the prompt records in order, and the counts over the
transcript. `walkLines_walkOf` proves that the walk over a file is
`walkOf` of the records the file reads as, so that `recoverOne` is
`recoverRecords` of them (`recoverOne_eq_recoverRecords`), and that a
malformed line is the one other outcome
(`recoverOne_of_malformed`).
-/

set_option autoImplicit false

namespace Yaldabaoth

open LineLog

/-! ### What a notification or a record contributes -/

namespace Notification

/-- The id of a completed handshake. -/
@[simp] def attachedId? : Notification → Option String
  | .sessionAttached _ acpSessionId => acpSessionId
  | _ => none

/-- The generation of an agent fact. -/
@[simp] def generation? : Notification → Option Nat
  | .agent event => some event.generation
  | _ => none

/-- The envelope turn of an agent fact that ends a live turn. -/
@[simp] def settledTurn? : Notification → Option Nat
  | .agent event => event.settledTurn?
  | _ => none

end Notification

namespace WalRecord

@[simp] def header? : WalRecord → Option WalHeader
  | .header _ serverSessionId label cwd permissionMode provider =>
      some { serverSessionId, label, cwd, permissionMode, provider }
  | _ => none

@[simp] def note? : WalRecord → Option Notification
  | .event note => some note
  | _ => none

@[simp] def label? : WalRecord → Option String
  | .rename label => some label
  | _ => none

@[simp] def archived? : WalRecord → Option Bool
  | .archive archived => some archived
  | _ => none

@[simp] def mode? : WalRecord → Option PermissionMode
  | .permission mode => some mode
  | _ => none

@[simp] def modelId? : WalRecord → Option String
  | .model modelId => some modelId
  | _ => none

@[simp] def intent? : WalRecord → Option RecoveredPrompt
  | .promptIntent id text textBlocks images => some { id, payload := { text, textBlocks, images } }
  | _ => none

@[simp] def terminalId? : WalRecord → Option Nat
  | .promptTerminal id _ => some id
  | _ => none

/-- The prompt id of an intent or a terminal record. -/
@[simp] def promptId? : WalRecord → Option Nat
  | .promptIntent id _ _ _ => some id
  | .promptTerminal id _ => some id
  | _ => none

/-- A header is supported when its version is one this build reads;
every other record is. -/
def Supported : WalRecord → Prop
  | .header version _ _ _ _ _ => minReadableWalVersion ≤ version ∧ version ≤ walVersion
  | _ => True

/-- The generation of the agent fact a record holds. -/
@[simp] def generation? : WalRecord → Option Nat
  | .event note => note.generation?
  | _ => none

/-- An agent event of the last generation there is: no next one can
follow it. -/
def Exhausting (r : WalRecord) : Prop := ∃ g ∈ r.generation?, u64Max ≤ g

instance : DecidablePred Exhausting := fun r =>
  inferInstanceAs (Decidable (∃ g ∈ r.generation?, u64Max ≤ g))

end WalRecord

/-! ### The largest of a list -/

/-- The largest element, read left to right. -/
def highest (ns : List Nat) : Option Nat := ns.foldl raise none

theorem highest_append_singleton (ns : List Nat) (n : Nat) :
    highest (ns ++ [n]) = raise (highest ns) n := by
  simp [highest, List.foldl_append]

/-- No element exceeds the highest, and it is one of them. -/
theorem highest_spec (ns : List Nat) :
    (ns = [] ∧ highest ns = none) ∨
      ∃ m, highest ns = some m ∧ m ∈ ns ∧ ∀ n ∈ ns, n ≤ m := by
  induction ns using List.reverseRecOn with
  | nil => exact .inl ⟨rfl, rfl⟩
  | append_singleton ns n ih =>
      right
      rw [highest_append_singleton]
      rcases ih with ⟨rfl, hnone⟩ | ⟨m, hm, hmem, hle⟩
      · exact ⟨n, by rw [hnone]; rfl, by simp, by simp⟩
      · refine ⟨max m n, by rw [hm]; rfl, ?_, ?_⟩
        · rcases Nat.le_total m n with h | h
          · simp [Nat.max_eq_right h]
          · simp [Nat.max_eq_left h, hmem]
        · intro k hk
          rcases List.mem_append.1 hk with hk | hk
          · exact Nat.le_trans (hle k hk) (Nat.le_max_left m n)
          · rw [List.mem_singleton.1 hk]; exact Nat.le_max_right m n

/-- Every element is at most the highest. -/
theorem le_of_highest {ns : List Nat} {m : Nat} (h : highest ns = some m) :
    ∀ n ∈ ns, n ≤ m := by
  rcases highest_spec ns with ⟨-, hnone⟩ | ⟨m', hm', -, hle⟩
  · rw [hnone] at h; cases h
  · rw [hm'] at h; cases h; exact hle

/-- The highest of a list is one of its elements. -/
theorem mem_of_highest {ns : List Nat} {m : Nat} (h : highest ns = some m) : m ∈ ns := by
  rcases highest_spec ns with ⟨-, hnone⟩ | ⟨m', hm', hmem, -⟩
  · rw [hnone] at h; cases h
  · rw [hm'] at h; cases h; exact hmem

/-- Only the empty list has no highest element. -/
theorem eq_nil_of_highest_eq_none {ns : List Nat} (h : highest ns = none) : ns = [] := by
  rcases highest_spec ns with ⟨hnil, -⟩ | ⟨m, hm, -, -⟩
  · exact hnil
  · rw [hm] at h; cases h

/-! ### The fold in closed form -/

/-- The settings after a list of records: the last of each kind, and
the prompt records in order. -/
def settingsOf (recs : List WalRecord) : WalSettings :=
  { renamedLabel       := (recs.filterMap WalRecord.label?).getLast?
    archived           := (recs.filterMap WalRecord.archived?).getLast?.getD false
    permissionOverride := (recs.filterMap WalRecord.mode?).getLast?
    modelId            := (recs.filterMap WalRecord.modelId?).getLast?
    promptIntents      := recs.filterMap WalRecord.intent?
    promptTerminal     := (recs.filterMap WalRecord.terminalId?).reverse
    maxPromptId        := highest (recs.filterMap WalRecord.promptId?) }

/-- The counts over a transcript. -/
def tallyOf (notes : List Notification) : Tally :=
  { durableEvents := notes.length
    acpSessionId  := (notes.filterMap Notification.attachedId?).getLast?
    legacyTurns   := (notes.filterMap Notification.turnCount?).length
    agentMaxTurn  := highest (notes.filterMap Notification.settledTurn?)
    maxGeneration := highest (notes.filterMap Notification.generation?) }

/-- One more notification. -/
theorem tallyOf_append_singleton (notes : List Notification) (note : Notification) :
    tallyOf (notes ++ [note]) = (tallyOf notes).note note := by
  cases note with
  | agent event =>
      cases h : event.settledTurn? <;>
        simp [tallyOf, Tally.note, h, List.filterMap_cons, highest_append_singleton]
  | sessionAttached sid acp =>
      cases acp <;> simp [tallyOf, Tally.note, List.filterMap_cons]
  | _ => simp [tallyOf, Tally.note, List.filterMap_cons]

/-- What the walk holds after a list of records. -/
def walkOf (recs : List WalRecord) : Walk Tally :=
  { header   := (recs.filterMap WalRecord.header?).getLast?
    settings := settingsOf recs
    acc      := tallyOf (recs.filterMap WalRecord.note?) }

/-- One record takes the closed form to the closed form. -/
theorem walkRecord_walkOf {rec : WalRecord} (hrec : rec.Supported) (n : Nat)
    (pre : List WalRecord) :
    walkRecord tallying n (walkOf pre) rec = .ok (.next (walkOf (pre ++ [rec]))) := by
  cases rec with
  | header version sid label cwd mode provider =>
      simp only [WalRecord.Supported] at hrec
      simp [walkRecord, hrec, walkOf, settingsOf, List.filterMap_cons]
  | event note =>
      simp [walkRecord, tallying, walkOf, settingsOf, List.filterMap_cons,
        tallyOf_append_singleton]
  | _ => simp [walkRecord, walkOf, settingsOf, List.filterMap_cons, highest_append_singleton]

/-! ### The walk over a file -/

variable {codec : Codec WalRecord}

/-- The walk over lines is the closed form of the records they read
as, or the malformed line's error. -/
theorem walkLines_walkOf (ls : List Bytes) :
    ∀ (n : Nat) (pre : List WalRecord), (∀ r ∈ (codec.read n ls).1, r.Supported) →
      walkLines codec tallying n ls (walkOf pre) =
        match codec.read n ls with
        | (recs, .complete) => .ok (walkOf (pre ++ recs))
        | (_, .malformed line error) =>
            .error (.invalidData s!"malformed WAL record at line {line}: {error}") := by
  induction ls with
  | nil => intro n pre _; simp [walkLines, Codec.read]
  | cons l ls ih =>
      intro n pre hsup
      rw [walkLines, Codec.read]
      rw [Codec.read] at hsup
      cases hb : isBlank l with
      | true =>
          simp only [hb, if_true] at hsup ⊢
          exact ih (n + 1) pre hsup
      | false =>
          simp only [hb, Bool.false_eq_true, if_false] at hsup ⊢
          cases hd : codec.decode l with
          | error e =>
              cases ht : isTerminated l <;> simp
          | ok rec =>
              simp only [hd] at hsup
              have hrec : rec.Supported := hsup rec List.mem_cons_self
              have hrest : ∀ r ∈ (codec.read (n + 1) ls).1, r.Supported :=
                fun r hr => hsup r (List.mem_cons_of_mem _ hr)
              simp only [walkRecord_walkOf hrec, ih (n + 1) (pre ++ [rec]) hrest]
              rcases codec.read (n + 1) ls with ⟨recs, _ | ⟨line, e⟩⟩ <;> simp

/-- The same for a whole file. -/
theorem walkWal_walkOf {contents : Bytes}
    (hsup : ∀ r ∈ (codec.readAll contents).1, r.Supported) :
    walkWal codec contents tallying Tally.initial =
      match codec.readAll contents with
      | (recs, .complete) =>
          .ok ((walkOf recs).header.map fun header => { settingsOf recs with header },
            (walkOf recs).acc)
      | (_, .malformed line error) =>
          .error (.invalidData s!"malformed WAL record at line {line}: {error}") := by
  have hinit : ({ header := none, settings := .initial, acc := .initial } : Walk Tally) =
      walkOf [] := rfl
  rw [walkWal, hinit, walkLines_walkOf (lines contents) 0 [] hsup, Codec.readAll]
  rcases codec.read 0 (lines contents) with ⟨recs, _ | ⟨line, e⟩⟩ <;> rfl

/-- `recover_one` on the records of a file. -/
def recoverRecords (path : PathBuf) (recs : List WalRecord) :
    Except WalError (Option RecoveredSession) :=
  match (walkOf recs).header with
  | none => .ok none
  | some header => (summarise path { settingsOf recs with header } (walkOf recs).acc).map some

/-- `recover_one` of a file that reads to its end is `recoverRecords`
of its records. -/
theorem recoverOne_eq_recoverRecords {path : PathBuf} {contents : Bytes}
    {recs : List WalRecord} (hread : codec.readAll contents = (recs, .complete))
    (hsup : ∀ r ∈ recs, r.Supported) :
    recoverOne codec path contents = recoverRecords path recs := by
  rw [recoverOne, walkWal_walkOf (by rw [hread]; exact hsup), hread, recoverRecords]
  cases hh : (walkOf recs).header <;> simp [hh]

/-- A terminated line that does not decode fails the recovery. -/
theorem recoverOne_of_malformed {path : PathBuf} {contents : Bytes} {recs : List WalRecord}
    {line : Nat} {error : String}
    (hread : codec.readAll contents = (recs, .malformed line error))
    (hsup : ∀ r ∈ recs, r.Supported) :
    recoverOne codec path contents =
      .error (.invalidData s!"malformed WAL record at line {line}: {error}") := by
  rw [recoverOne, walkWal_walkOf (by rw [hread]; exact hsup), hread]

/-! ### Streaming -/

/-- The walk that streams hands on the notifications in order, and no
more than were asked for. -/
theorem walkLines_streaming {len : Nat} (ls : List Bytes) :
    ∀ (n : Nat) (w : Walk (List Notification)) (recs : List WalRecord), w.acc.length < len →
      codec.read n ls = (recs, .complete) → (∀ r ∈ recs, r.Supported) →
      ∃ w', walkLines codec (streaming len) n ls w = .ok w' ∧
        w'.acc = w.acc ++ (recs.filterMap WalRecord.note?).take (len - w.acc.length) := by
  induction ls with
  | nil =>
      intro n w recs _ hread _
      cases hread
      exact ⟨w, rfl, by simp⟩
  | cons l ls ih =>
      intro n w recs hlen hread hsup
      rw [Codec.read] at hread
      rw [walkLines]
      cases hb : isBlank l with
      | true =>
          simp only [hb, if_true] at hread ⊢
          exact ih (n + 1) w recs hlen hread hsup
      | false =>
          simp only [hb, Bool.false_eq_true, if_false] at hread ⊢
          cases hd : codec.decode l with
          | error e =>
              simp only [hd] at hread ⊢
              split at hread
              · cases hread
              · rename_i hterminated
                cases hread
                rw [if_pos (by simpa using hterminated)]
                exact ⟨w, rfl, by simp⟩
          | ok rec =>
              simp only [hd] at hread ⊢
              rcases hrest : codec.read (n + 1) ls with ⟨rest, ending⟩
              rw [hrest] at hread
              cases hread
              have hrec : rec.Supported := hsup rec List.mem_cons_self
              have hothers : ∀ r ∈ rest, r.Supported := fun r hr =>
                hsup r (List.mem_cons_of_mem _ hr)
              cases rec with
              | header version sid label cwd mode provider =>
                  simp only [WalRecord.Supported] at hrec
                  simp only [walkRecord, if_pos hrec]
                  exact ih (n + 1) _ rest hlen hrest hothers
              | event note =>
                  simp only [walkRecord, streaming]
                  by_cases hmore : w.acc.length + 1 < len
                  · obtain ⟨w', hwalk, hacc⟩ := ih (n + 1) { w with acc := w.acc ++ [note] } rest
                      (by simpa using hmore) hrest hothers
                    rw [decide_eq_true hmore]
                    refine ⟨w', hwalk, ?_⟩
                    obtain ⟨k, hk⟩ : ∃ k, len - w.acc.length = k + 1 :=
                      ⟨len - w.acc.length - 1, by omega⟩
                    have hshort : len - (w.acc ++ [note]).length = k := by
                      rw [List.length_append, List.length_singleton]
                      omega
                    rw [hacc, hshort, hk, List.append_assoc]
                    rfl
                  · rw [decide_eq_false hmore]
                    have hone : len - w.acc.length = 1 := by omega
                    refine ⟨{ w with acc := w.acc ++ [note] }, rfl, ?_⟩
                    rw [hone]
                    rfl
              | _ =>
                  simp only [walkRecord]
                  exact ih (n + 1) _ rest hlen hrest hothers

/-- `stream_durable_prefix` on the records of a file. -/
def streamRecords (path : PathBuf) (recs : List WalRecord) (len : Nat) :
    Except WalError (List Notification) :=
  streamed path len ((recs.filterMap WalRecord.note?).take len)

/-- `stream_durable_prefix` of a file that reads to its end is
`streamRecords` of its records. -/
theorem streamDurablePrefix_eq_streamRecords {path : PathBuf} {contents : Bytes}
    {recs : List WalRecord} (hread : codec.readAll contents = (recs, .complete))
    (hsup : ∀ r ∈ recs, r.Supported) (len : Nat) :
    streamDurablePrefix codec path contents len = streamRecords path recs len := by
  unfold streamDurablePrefix
  split
  · rename_i hzero
    rw [hzero]
    rfl
  · rename_i hpos
    obtain ⟨w, hwalk, hacc⟩ := walkLines_streaming (lines contents) 0
      { header := none, settings := .initial, acc := [] } recs (Nat.pos_of_ne_zero hpos) hread hsup
    rw [walkWal, hwalk]
    simp only
    rw [hacc]
    rfl

/-! ### The summary of a log -/

/-- What a summary says about a log with this header and these records
behind it. -/
structure Summarises (header : WalHeader) (recs : List WalRecord) (s : RecoveredSession) :
    Prop where
  serverSessionId : s.serverSessionId = header.serverSessionId
  cwd : s.cwd = header.cwd
  provider : s.provider = header.provider
  label : s.label = (recs.filterMap WalRecord.label?).getLast?.getD header.label
  archived : s.archived = (recs.filterMap WalRecord.archived?).getLast?.getD false
  permissionMode :
    s.permissionMode = (recs.filterMap WalRecord.mode?).getLast?.getD header.permissionMode
  modelId : s.modelId = (recs.filterMap WalRecord.modelId?).getLast?
  durableEvents : s.durableEvents = (recs.filterMap WalRecord.note?).length
  pendingPrompts :
    s.pendingPrompts = (recs.filterMap WalRecord.intent?).filter fun intent =>
      intent.id ∉ recs.filterMap WalRecord.terminalId?
  nextPromptId :
    ∀ id ∈ recs.filterMap WalRecord.promptId?, id < u64Max → id < s.nextPromptId

/-- The operations of a handle write no header. -/
@[simp] theorem WalOp.record_header? (op : WalOp) : op.record.header? = none := by
  cases op <;> rfl

/-- Nor does the reader refuse what they write. -/
theorem WalOp.record_supported (op : WalOp) : op.record.Supported := by
  cases op <;> trivial

/-- The header of a new log has the version this build writes. -/
theorem WalHeader.record_supported (header : WalHeader) : header.record.Supported :=
  ⟨by decide, by decide⟩

/-- The generations of the transcript are those of the records. -/
theorem filterMap_note_generation (recs : List WalRecord) :
    (recs.filterMap WalRecord.note?).filterMap Notification.generation? =
      recs.filterMap WalRecord.generation? := by
  rw [List.filterMap_filterMap]
  congr 1
  funext r
  cases r <;> rfl

/-- The header of a log adds to no selector but its own. -/
theorem filterMap_header {β : Type} {f : WalRecord → Option β} {header : WalHeader}
    (hf : f header.record = none) (recs : List WalRecord) :
    (header.record :: recs).filterMap f = recs.filterMap f := by
  rw [List.filterMap_cons, hf]

/-- The walk over a log that starts with its header. -/
theorem walkOf_header {header : WalHeader} {recs : List WalRecord}
    (hrecs : ∀ r ∈ recs, r.header? = none) :
    (walkOf (header.record :: recs)).header = some header := by
  have hnone : recs.filterMap WalRecord.header? = [] := List.filterMap_eq_nil_iff.2 hrecs
  simp [walkOf, WalHeader.record, hnone]

/-- Behind a header, the highest generation is that of the records. -/
theorem walkOf_maxGeneration (header : WalHeader) (recs : List WalRecord) :
    (walkOf (header.record :: recs)).acc.maxGeneration =
      highest (recs.filterMap WalRecord.generation?) := by
  simp only [walkOf, tallyOf]
  rw [filterMap_note_generation, filterMap_header rfl]

/-- Without an exhausting event there is a next generation. -/
theorem nextGeneration_ok {recs : List WalRecord} (hgen : ∀ r ∈ recs, ¬ r.Exhausting) :
    ∃ g, nextGeneration (highest (recs.filterMap WalRecord.generation?)) = .ok g := by
  cases hm : highest (recs.filterMap WalRecord.generation?) with
  | none => exact ⟨0, rfl⟩
  | some m =>
      obtain ⟨r, hr, hg⟩ := List.mem_filterMap.1 (mem_of_highest hm)
      have hlt : m < u64Max := Nat.lt_of_not_le fun h => hgen r hr ⟨m, hg, h⟩
      exact ⟨m + 1, by simp [nextGeneration, checkedAdd, Nat.succ_le_of_lt hlt]⟩

/-- With one there is none. -/
theorem nextGeneration_exhausted {recs : List WalRecord} (hgen : ∃ r ∈ recs, r.Exhausting) :
    nextGeneration (highest (recs.filterMap WalRecord.generation?)) =
      .error (.panicked "durable channel generation exhausted") := by
  obtain ⟨r, hr, g, hg, hbig⟩ := hgen
  have hmem : g ∈ recs.filterMap WalRecord.generation? := List.mem_filterMap.2 ⟨r, hr, hg⟩
  cases hm : highest (recs.filterMap WalRecord.generation?) with
  | none =>
      rw [eq_nil_of_highest_eq_none hm] at hmem
      cases hmem
  | some m =>
      have hle := le_of_highest hm g hmem
      have hover : ¬ m + 1 ≤ u64Max := by omega
      simp [nextGeneration, checkedAdd, hover]

/-- A log without an exhausting event is recovered, and its summary says
what its records say. -/
theorem recoverRecords_summarises (path : PathBuf) {header : WalHeader}
    {recs : List WalRecord} (hrecs : ∀ r ∈ recs, r.header? = none)
    (hgen : ∀ r ∈ recs, ¬ r.Exhausting) :
    ∃ s, recoverRecords path (header.record :: recs) = .ok (some s) ∧
      Summarises header recs s := by
  obtain ⟨g, hg⟩ := nextGeneration_ok hgen
  rw [recoverRecords, walkOf_header hrecs]
  simp only [summarise, walkOf_maxGeneration, hg, Except.map]
  refine ⟨_, rfl, ?_⟩
  refine
    { serverSessionId := rfl
      cwd := rfl
      provider := rfl
      label := by simp only [settingsOf]; rw [filterMap_header rfl]
      archived := by simp only [settingsOf]; rw [filterMap_header rfl]
      permissionMode := by simp only [settingsOf]; rw [filterMap_header rfl]
      modelId := by simp only [settingsOf]; rw [filterMap_header rfl]
      durableEvents := by simp only [walkOf, tallyOf]; rw [filterMap_header rfl]
      pendingPrompts := ?_
      nextPromptId := ?_ }
  · simp only [settingsOf]
    rw [filterMap_header rfl, filterMap_header rfl]
    refine List.filter_congr fun intent _ => ?_
    simp only [List.contains_eq_mem, List.mem_reverse, decide_not]
  · intro id hid hlt
    simp only [settingsOf]
    rw [filterMap_header rfl]
    cases hm : highest (recs.filterMap WalRecord.promptId?) with
    | none =>
        rw [eq_nil_of_highest_eq_none hm] at hid
        cases hid
    | some m =>
        have hle := le_of_highest hm id hid
        simp only [saturatingAdd]
        omega

/-- A log with an exhausting event is not recovered. -/
theorem recoverRecords_of_exhausting (path : PathBuf) {header : WalHeader}
    {recs : List WalRecord} (hrecs : ∀ r ∈ recs, r.header? = none)
    (hgen : ∃ r ∈ recs, r.Exhausting) :
    recoverRecords path (header.record :: recs) =
      .error (.panicked "durable channel generation exhausted") := by
  rw [recoverRecords, walkOf_header hrecs]
  simp only [summarise, walkOf_maxGeneration, nextGeneration_exhausted hgen, Except.map]

/-- What a recovered session counts from. -/
theorem recoverRecords_counters {path : PathBuf} {recs : List WalRecord} {s : RecoveredSession}
    (h : recoverRecords path recs = .ok (some s)) :
    s.turns = (tallyOf (recs.filterMap WalRecord.note?)).turns ∧
      nextGeneration (tallyOf (recs.filterMap WalRecord.note?)).maxGeneration =
        .ok s.nextGeneration := by
  unfold recoverRecords at h
  split at h
  · cases h
  · simp only [summarise] at h
    split at h
    · cases h
    · rename_i generation hgeneration
      cases h
      exact ⟨rfl, hgeneration⟩

/-- A recovered session counts the events on disk. -/
theorem recoverRecords_durableEvents {path : PathBuf} {recs : List WalRecord}
    {s : RecoveredSession} (h : recoverRecords path recs = .ok (some s)) :
    s.durableEvents = (recs.filterMap WalRecord.note?).length := by
  unfold recoverRecords at h
  split at h
  · cases h
  · simp only [summarise] at h
    split at h
    · cases h
    · cases h
      rfl

/-- The next generation is later than every one in the transcript. -/
theorem lt_nextGeneration {notes : List Notification} {next : Nat}
    (h : nextGeneration (tallyOf notes).maxGeneration = .ok next) :
    ∀ event ∈ notes.filterMap Notification.agent?, event.generation < next := by
  intro event hevent
  obtain ⟨note, hnote, hagent⟩ := List.mem_filterMap.1 hevent
  have hmem : event.generation ∈ notes.filterMap Notification.generation? := by
    refine List.mem_filterMap.2 ⟨note, hnote, ?_⟩
    cases note <;> cases hagent
    rfl
  show event.generation < next
  cases hmax : highest (notes.filterMap Notification.generation?) with
  | none =>
      rw [eq_nil_of_highest_eq_none hmax] at hmem
      cases hmem
  | some m =>
      have hle : event.generation ≤ m := le_of_highest hmax _ hmem
      simp only [tallyOf, hmax, nextGeneration, checkedAdd] at h
      split at h
      · rename_i hadd
        split at hadd
        · cases hadd
          cases h
          omega
        · cases hadd
      · cases h

end Yaldabaoth
