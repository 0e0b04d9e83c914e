import Yaldabaoth.Proofs.Wal.Recovery

/-!
# `Yaldabaoth.Proofs.Wal.Repair`: the repair against the reader

`repair_torn_tail` and `walk_wal` split a file differently: the one looks
for the last newline, the other reads line by line, skips blank lines and
stops at a last line that does not decode. `walkWal_repairTornTail` says
that they agree on any bytes: the walk over the repaired file is the walk
over the file, with the same result or the same error. What is appended
to the repaired file afterwards adds to that result, record by record.

The one fact about JSON text it takes is that a newline behind a value
changes nothing (`Codec.SkipsNewline`).
-/

set_option autoImplicit false

namespace Yaldabaoth

open LineLog

variable {codec : Codec WalRecord} {σ : Type}
  {onEvent : Notification → σ → Except WalError (σ × Bool)}

/-- What the walk does behind some lines decides what it does with these
lines in front. -/
theorem walkLines_congr (ls : List Bytes) {rest rest' : List Bytes}
    (h : ∀ n (w : Walk σ), walkLines codec onEvent n rest w = walkLines codec onEvent n rest' w) :
    ∀ n (w : Walk σ), walkLines codec onEvent n (ls ++ rest) w
      = walkLines codec onEvent n (ls ++ rest') w := by
  induction ls with
  | nil => exact h
  | cons l ls ih =>
      intro n w
      simp only [List.cons_append, walkLines, ih]

/-- An unterminated last line that does not decode is as good as none. -/
theorem walkLines_torn {t : Bytes} (ht : newline ∉ t) {e : String} (hd : codec.decode t = .error e)
    (n : Nat) (w : Walk σ) :
    walkLines codec onEvent n [t] w = walkLines codec onEvent n [] w := by
  have hunterminated := isTerminated_of_newline_not_mem ht
  simp only [walkLines, hd, hunterminated, Bool.not_false, if_true]
  split <;> rfl

/-- A last line that decodes reads the same with its newline. -/
theorem walkLines_terminated (hskip : codec.SkipsNewline) {t : Bytes} (ht : newline ∉ t)
    {rec : WalRecord} (hd : codec.decode t = .ok rec) (n : Nat) (w : Walk σ) :
    walkLines codec onEvent n [t ++ [newline]] w = walkLines codec onEvent n [t] w := by
  simp only [walkLines, isBlank_append_newline, hd, hskip t rec ht hd]

/-- The three things the repair does. -/
theorem repairTornTail_cases (c : Bytes) :
    (repairTornTail codec c = c ∧ (c = [] ∨ isTerminated c = true)) ∨
    (tail c ≠ [] ∧ ∃ rec, codec.decode (tail c) = .ok rec ∧
      repairTornTail codec c = c ++ [newline]) ∨
    (tail c ≠ [] ∧ ∃ e, codec.decode (tail c) = .error e ∧ repairTornTail codec c = body c) := by
  by_cases hdone : c = [] ∨ isTerminated c = true
  · left
    refine ⟨?_, hdone⟩
    rw [repairTornTail, if_pos hdone]
  · right
    have htail : tail c ≠ [] := by
      intro hnil
      have hwhole : body c = c := by
        have hsplit := body_append_tail c
        rwa [hnil, List.append_nil] at hsplit
      have hended := body_ended c
      rw [hwhole] at hended
      exact hdone hended
    rw [repairTornTail, if_neg hdone]
    cases hd : codec.decode (tail c) with
    | ok rec => exact .inl ⟨htail, rec, rfl, rfl⟩
    | error e => exact .inr ⟨htail, e, rfl, rfl⟩

/-- The lines of a file with an unterminated last line. -/
theorem lines_body_tail {c : Bytes} (h : tail c ≠ []) : lines c = lines (body c) ++ [tail c] := by
  conv_lhs => rw [← body_append_tail c]
  rw [lines_append (body_ended c), lines_of_newline_not_mem (newline_not_mem_tail c) h]

theorem walkLines_repairTornTail (hskip : codec.SkipsNewline) (c : Bytes) (n : Nat) (w : Walk σ) :
    walkLines codec onEvent n (lines (repairTornTail codec c)) w
      = walkLines codec onEvent n (lines c) w := by
  rcases @repairTornTail_cases codec c with ⟨hsame, -⟩ | ⟨htail, rec, hd, hrepair⟩ |
    ⟨htail, e, hd, hrepair⟩
  · rw [hsame]
  · -- The newline that was missing.
    have hlines : lines (c ++ [newline]) = lines (body c) ++ [tail c ++ [newline]] := by
      conv_lhs => rw [← body_append_tail c, List.append_assoc]
      rw [lines_append (body_ended c), lines_append_newline (newline_not_mem_tail c), lines_nil]
    rw [hrepair, hlines, lines_body_tail htail]
    exact walkLines_congr _ (walkLines_terminated hskip (newline_not_mem_tail c) hd) n w
  · -- The line is cut away.
    have hcut : ∀ n (w : Walk σ), walkLines codec onEvent n [] w
        = walkLines codec onEvent n [tail c] w :=
      fun n w => (walkLines_torn (newline_not_mem_tail c) hd n w).symm
    have hsame := walkLines_congr (lines (body c)) hcut n w
    rw [hrepair, lines_body_tail htail]
    rwa [List.append_nil] at hsame

theorem walkWal_repairTornTail (hskip : codec.SkipsNewline) (c : Bytes) (acc : σ) :
    walkWal codec (repairTornTail codec c) onEvent acc = walkWal codec c onEvent acc := by
  rw [walkWal, walkWal, walkLines_repairTornTail hskip]

/-- Nothing up to the last newline changes. -/
theorem body_prefix_repairTornTail (c : Bytes) : body c <+: repairTornTail codec c := by
  have hbody : body c <+: c := ⟨tail c, body_append_tail c⟩
  rcases @repairTornTail_cases codec c with ⟨hsame, -⟩ | ⟨-, rec, -, hrepair⟩ | ⟨-, e, -, hrepair⟩
  · rw [hsame]
    exact hbody
  · rw [hrepair]
    exact hbody.trans (List.prefix_append _ _)
  · rw [hrepair]

/-- A repaired file is ready for the next line. -/
theorem repairTornTail_ended (c : Bytes) :
    repairTornTail codec c = [] ∨ isTerminated (repairTornTail codec c) = true := by
  rcases @repairTornTail_cases codec c with ⟨hsame, hended⟩ | ⟨-, rec, -, hrepair⟩ |
    ⟨-, e, -, hrepair⟩
  · rw [hsame]
    exact hended
  · rw [hrepair]
    exact .inr (isTerminated_append_newline c)
  · rw [hrepair]
    exact body_ended c

/-! ### What is appended afterwards -/

/-- The closure that hands out all events. -/
def collecting (note : Notification) (events : List Notification) :
    Except WalError (List Notification × Bool) :=
  .ok (events ++ [note], true)

/-- The settings after one more record. -/
def WalSettings.after (settings : WalSettings) : WalRecord → WalSettings
  | .rename label => { settings with renamedLabel := some label }
  | .archive archived => { settings with archived }
  | .permission mode => { settings with permissionOverride := some mode }
  | .model modelId => { settings with modelId := some modelId }
  | .promptIntent id text textBlocks images => { settings with
      maxPromptId := raise settings.maxPromptId id
      promptIntents := settings.promptIntents ++ [{ id, payload := { text, textBlocks, images } }] }
  | .promptTerminal id _ => { settings with
      maxPromptId := raise settings.maxPromptId id
      promptTerminal := id :: settings.promptTerminal }
  | _ => settings

/-- The walk after one more record. -/
def Walk.after (w : Walk (List Notification)) (rec : WalRecord) : Walk (List Notification) :=
  { w with settings := w.settings.after rec, acc := w.acc ++ rec.note?.toList }

theorem walkRecord_collecting (op : WalOp) (n : Nat) (w : Walk (List Notification)) :
    walkRecord collecting n w op.record = .ok (.next (w.after op.record)) := by
  cases op with
  | append note fsync => rfl
  | _ => simp [walkRecord, Walk.after, WalSettings.after, WalOp.record]

/-- Where every line is terminated the walk reads all of them, or fails. -/
theorem walkLines_append (ls more : List Bytes) (hls : ∀ l ∈ ls, isTerminated l = true) :
    ∀ n (w w' : Walk (List Notification)), walkLines codec collecting n ls w = .ok w' →
      walkLines codec collecting n (ls ++ more) w
        = walkLines codec collecting (n + ls.length) more w' := by
  induction ls with
  | nil =>
      intro n w w' h
      cases h
      rfl
  | cons l ls ih =>
      intro n w w' h
      have hrest : ∀ l' ∈ ls, isTerminated l' = true :=
        fun l' hl' => hls l' (List.mem_cons_of_mem _ hl')
      have hcount : n + (l :: ls).length = n + 1 + ls.length := by
        rw [List.length_cons]
        omega
      rw [hcount, List.cons_append, walkLines]
      rw [walkLines] at h
      cases hblank : isBlank l with
      | true =>
          simp only [hblank, if_true] at h ⊢
          exact ih hrest (n + 1) w w' h
      | false =>
          simp only [hblank, Bool.false_eq_true, if_false] at h ⊢
          cases hd : codec.decode l with
          | error e =>
              have hterminated := hls l List.mem_cons_self
              simp [hd, hterminated] at h
          | ok rec =>
              simp only [hd] at h ⊢
              cases hrec : walkRecord collecting (n + 1) w rec with
              | error e => simp [hrec] at h
              | ok flow =>
                  cases flow with
                  | next w'' =>
                      simp only [hrec] at h ⊢
                      exact ih hrest (n + 1) w'' w' h
                  | stop w'' =>
                      -- Collecting never stops the walk.
                      cases rec with
                      | header => simp only [walkRecord] at hrec; split at hrec <;> cases hrec
                      | event note => cases hrec
                      | _ => cases hrec

/-- Appended records are read in order. -/
theorem walkLines_render (ops : List WalOp) (hops : ∀ op ∈ ops, codec.Faithful op.record) :
    ∀ n (w : Walk (List Notification)),
      walkLines codec collecting n (lines (codec.render (ops.map WalOp.record))) w
        = .ok ((ops.map WalOp.record).foldl Walk.after w) := by
  induction ops with
  | nil => intro n w; rfl
  | cons op ops ih =>
      intro n w
      have hop := hops op List.mem_cons_self
      have hlines : lines (codec.render ((op :: ops).map WalOp.record))
          = codec.line op.record :: lines (codec.render (ops.map WalOp.record)) := by
        rw [List.map_cons, Codec.render_cons, Codec.line, List.append_assoc]
        exact lines_append_newline hop.oneLine _
      have hblank : isBlank (codec.line op.record) = false := by
        rw [Codec.line, isBlank_append_newline]
        exact hop.notBlank
      rw [hlines, walkLines, hblank, if_neg Bool.false_ne_true, hop.decode_line]
      simp only [walkRecord_collecting]
      exact ih (fun op' hop' => hops op' (List.mem_cons_of_mem _ hop')) (n + 1) (w.after op.record)

theorem foldl_after (recs : List WalRecord) (w : Walk (List Notification)) :
    recs.foldl Walk.after w =
      { header := w.header
        settings := recs.foldl WalSettings.after w.settings
        acc := w.acc ++ recs.filterMap WalRecord.note? } := by
  induction recs generalizing w with
  | nil => simp
  | cons rec recs ih =>
      rw [List.foldl_cons, ih]
      cases rec <;> simp [Walk.after, List.filterMap_cons]

/-- The file of a handle after appends that all succeeded. -/
theorem contents_appended (wal : SessionWal) (ops : List WalOp) :
    (ops.foldl (fun wal op => (op.run codec wal .done).1) wal).contents
      = wal.contents ++ codec.render (ops.map WalOp.record) := by
  induction ops generalizing wal with
  | nil => simp
  | cons op ops ih =>
      rw [List.foldl_cons, ih, WalOp.run_eq, List.map_cons, Codec.render_cons, ← List.append_assoc]
      rfl

/-- What a reader makes of a file. -/
def readWal (codec : Codec WalRecord) (contents : Bytes) :
    Except WalError (Option WalMeta × List Notification) :=
  walkWal codec contents collecting []

/-- A result with some more records behind it. -/
def extended (result : Option WalMeta × List Notification) (recs : List WalRecord) :
    Option WalMeta × List Notification :=
  (result.1.map fun m => { recs.foldl WalSettings.after m.toWalSettings with header := m.header },
    result.2 ++ recs.filterMap WalRecord.note?)

/-- Any file reads the same after its repair, whether it reads or not;
what a reopened handle appends comes behind; and the repair leaves alone
all that has its newline. -/
theorem reopen_agrees_with_walk (codec : Codec WalRecord) (hskip : codec.SkipsNewline)
    (path : PathBuf) (c : Bytes) :
    readWal codec (SessionWal.reopen codec path c).contents = readWal codec c ∧
    (∀ (ops : List WalOp) result, (∀ op ∈ ops, codec.Faithful op.record) →
      readWal codec c = .ok result →
        readWal codec (ops.foldl (fun wal op => (op.run codec wal .done).1)
            (SessionWal.reopen codec path c)).contents
          = .ok (extended result (ops.map WalOp.record))) ∧
    body c <+: (SessionWal.reopen codec path c).contents := by
  refine ⟨walkWal_repairTornTail hskip c [], ?_, body_prefix_repairTornTail c⟩
  intro ops result hops hread
  rw [contents_appended]
  show walkWal codec (repairTornTail codec c ++ _) collecting [] = _
  have hread : walkWal codec (repairTornTail codec c) collecting [] = .ok result :=
    (walkWal_repairTornTail hskip c []).trans hread
  have hended := @repairTornTail_ended codec c
  generalize repairTornTail codec c = file at hread hended
  rw [walkWal] at hread ⊢
  cases hwalk : walkLines codec collecting 0 (lines file)
      { header := none, settings := .initial, acc := [] } with
  | error e => rw [hwalk] at hread; cases hread
  | ok w =>
      rw [hwalk] at hread
      cases hread
      rw [lines_append hended, walkLines_append _ _ (isTerminated_of_mem_lines hended) _ _ _ hwalk,
        walkLines_render ops hops, foldl_after]
      cases hheader : w.header with
      | none => simp [extended]
      | some header => simp [extended]

/-- A header, and a rename cut in the middle of its line. -/
def cutRename : Bytes :=
  sampleCodec.line sampleHeader.record ++ (sampleCodec.encode (.rename "c")).take 12

theorem reopen_agrees_with_walk_sample :
    readWal sampleCodec (SessionWal.reopen sampleCodec "/w/s.log" cutRename).contents
        = readWal sampleCodec cutRename ∧
      ∃ result, readWal sampleCodec cutRename = .ok result ∧
        readWal sampleCodec (((WalOp.rename "b").run sampleCodec
            (SessionWal.reopen sampleCodec "/w/s.log" cutRename) .done).1).contents
          = .ok (extended result [.rename "b"]) := by
  obtain ⟨hsame, hextends, -⟩ := reopen_agrees_with_walk sampleCodec
    (Codec.ofTable_skipsNewline sampleRows_ok) "/w/s.log" cutRename
  refine ⟨hsame, ?_⟩
  have hreads : (readWal sampleCodec cutRename).toOption.isSome = true := by decide +kernel
  cases hread : readWal sampleCodec cutRename with
  | error e => rw [hread] at hreads; cases hreads
  | ok result =>
      refine ⟨result, rfl, hextends [.rename "b"] result ?_ hread⟩
      intro op hop
      obtain rfl := List.mem_singleton.1 hop
      exact sampleCodec_faithful (by decide)

end Yaldabaoth
