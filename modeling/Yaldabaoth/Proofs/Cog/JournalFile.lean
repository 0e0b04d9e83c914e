import Yaldabaoth.Model.DeliveryJournal

/-!
# `Yaldabaoth.Proofs.Cog.JournalFile`: what a delivery journal's file holds

The replay of a journal file, line by line, and the two shapes a file
takes while one journal appends to it.

`Intact` is the good shape: the file replays to exactly what the
journal remembers. A failed append may leave bytes behind that the
journal does not know of; `Behind` says which, and `Behind.replay` what
a reader makes of them. From there the next whole line ruins the file
(`Behind.ruined`), and a ruined file stays ruined (`Ruined.append`).
-/

set_option autoImplicit false

namespace Yaldabaoth

open LineLog

variable {json : JournalJson}

/-! ### Reading line by line -/

namespace Replay

/-- The loop goes on where it stood after terminated lines. -/
theorem readLines_append {w w' : Replay} {xs : List Bytes}
    (hxs : ∀ l ∈ xs, isTerminated l = true) (h : w.readLines json xs = .ok w') (ys : List Bytes) :
    w.readLines json (xs ++ ys) = w'.readLines json ys := by
  induction xs generalizing w with
  | nil =>
      cases h
      rfl
  | cons l ls ih =>
      have hl := hxs l List.mem_cons_self
      simp only [readLines, if_pos hl] at h
      simp only [List.cons_append, readLines, if_pos hl]
      cases hread : w.readRecord json l.dropLast with
      | error e => rw [hread] at h; cases h
      | ok next =>
          rw [hread] at h
          exact ih (fun m hm => hxs m (List.mem_cons_of_mem _ hm)) h

/-- A failure in terminated lines is not undone by what follows. -/
theorem readLines_append_error {w : Replay} {xs : List Bytes} {e : JournalError}
    (hxs : ∀ l ∈ xs, isTerminated l = true) (h : w.readLines json xs = .error e)
    (ys : List Bytes) : w.readLines json (xs ++ ys) = .error e := by
  induction xs generalizing w with
  | nil => cases h
  | cons l ls ih =>
      have hl := hxs l List.mem_cons_self
      simp only [readLines, if_pos hl] at h
      simp only [List.cons_append, readLines, if_pos hl]
      cases hread : w.readRecord json l.dropLast with
      | error e' => rw [hread] at h; exact h
      | ok next =>
          rw [hread] at h
          exact ih (fun m hm => hxs m (List.mem_cons_of_mem _ hm)) h

/-- A text without a newline is not read. -/
theorem readLines_tail (w : Replay) {t : Bytes} (ht : newline ∉ t) :
    w.readLines json (lines t) = .ok w := by
  cases t with
  | nil => rfl
  | cons b bs =>
      rw [lines_of_newline_not_mem ht (List.cons_ne_nil _ _), readLines,
        isTerminated_of_newline_not_mem ht]
      rfl

/-- A record that is read moves the length on by its line. -/
theorem readRecord_validLen {w w' : Replay} {text : Bytes}
    (h : w.readRecord json text = .ok w') : w'.validLen = w.validLen + (text.length + 1) := by
  unfold readRecord at h
  repeat' split at h
  all_goals first
    | cases h; rfl
    | cases h

/-- The length counts every terminated line read. -/
theorem readLines_validLen {w w' : Replay} {ls : List Bytes}
    (hls : ∀ l ∈ ls, isTerminated l = true) (h : w.readLines json ls = .ok w') :
    w'.validLen = w.validLen + ls.flatten.length := by
  induction ls generalizing w with
  | nil =>
      cases h
      rfl
  | cons l ls ih =>
      have hl := hls l List.mem_cons_self
      have hne : l ≠ [] := by rintro rfl; simp [isTerminated] at hl
      have hpos := List.length_pos_iff.2 hne
      simp only [readLines, if_pos hl] at h
      cases hread : w.readRecord json l.dropLast with
      | error e => rw [hread] at h; cases h
      | ok next =>
          rw [hread] at h
          have hnext := readRecord_validLen hread
          have hrest := ih (fun m hm => hls m (List.mem_cons_of_mem _ hm)) h
          rw [List.length_dropLast] at hnext
          rw [List.flatten_cons, List.length_append]
          omega

/-- The next record in order is read into the map. -/
theorem readRecord_encode {w : Replay} {r : JournalRecord} (hr : json.Faithful r)
    (hseq : r.seq = w.expectedSeq) (hvalid : validateTransition w.attempts[r.attemptId]? r = .ok ())
    (hmax : w.expectedSeq < u64Max) :
    w.readRecord json (json.encode r) =
      .ok { attempts := w.attempts.insert r.attemptId r, expectedSeq := w.expectedSeq + 1,
            validLen := w.validLen + (json.line r).length } := by
  have hne : json.encode r ≠ [] := by
    intro h
    have hblank := hr.notBlank
    simp [h, isBlank] at hblank
  have hadd : checkedAdd w.expectedSeq 1 = some (w.expectedSeq + 1) := by
    rw [checkedAdd, if_pos (by omega)]
  rw [readRecord, if_neg hne]
  simp only [hr.decode_encode, hseq, ne_eq, not_true_eq_false, if_false, hvalid, hadd,
    Codec.length_line]

/-- A record with another number than the next one is refused. -/
theorem readRecord_of_seq_ne {w : Replay} {r : JournalRecord} (hr : json.Faithful r)
    (hseq : r.seq ≠ w.expectedSeq) : ∃ e, w.readRecord json (json.encode r) = .error e := by
  unfold readRecord
  split
  · exact ⟨_, rfl⟩
  · rw [hr.decode_encode]
    simp only [if_pos hseq]
    exact ⟨_, rfl⟩

/-- The last number of all is refused: there is none to expect next. -/
theorem readRecord_of_exhausted {w : Replay} {r : JournalRecord} (hr : json.Faithful r)
    (hmax : u64Max ≤ w.expectedSeq) : ∃ e, w.readRecord json (json.encode r) = .error e := by
  have hadd : checkedAdd w.expectedSeq 1 = none := by rw [checkedAdd, if_neg (by omega)]
  unfold readRecord
  split
  · exact ⟨_, rfl⟩
  · rw [hr.decode_encode]
    dsimp only
    split
    · exact ⟨_, rfl⟩
    · split
      · exact ⟨_, rfl⟩
      · rw [hadd]; exact ⟨_, rfl⟩

/-- A text that does not decode is refused. -/
theorem readRecord_of_not_parses {w : Replay} {text : Bytes} (h : ¬ json.Parses text) :
    ∃ e, w.readRecord json text = .error e := by
  unfold readRecord
  split
  · exact ⟨_, rfl⟩
  · cases hd : json.decode text with
    | ok r => exact absurd ⟨r, hd⟩ h
    | error e => exact ⟨_, rfl⟩

variable (json) in
/-- The line of a text is read as that text. -/
theorem readLines_line (w : Replay) {t : Bytes} (ht : newline ∉ t) :
    w.readLines json (lines (t ++ [newline])) = w.readRecord json t := by
  rw [lines_append_newline ht, readLines, if_pos (isTerminated_append_newline t), List.dropLast_concat]
  cases w.readRecord json t <;> rfl

end Replay

/-! ### Whole files -/

/-- Behind bytes that end a line, a replay goes on. -/
theorem replay_append {b : Bytes} (hb : b = [] ∨ isTerminated b = true) {w : Replay}
    (h : replay json b = .ok w) (t : Bytes) : replay json (b ++ t) = w.readLines json (lines t) := by
  rw [replay, lines_append hb]
  exact Replay.readLines_append (isTerminated_of_mem_lines hb) h _

/-- An unterminated tail is not read. -/
theorem replay_eq_body (b : Bytes) : replay json b = replay json (body b) := by
  have hlines : lines b = lines (body b) ++ lines (tail b) := by
    rw [← lines_append (body_ended b), body_append_tail]
  have hall := isTerminated_of_mem_lines (body_ended b)
  cases h : replay json (body b) with
  | ok w =>
      rw [replay, hlines, Replay.readLines_append hall h]
      exact Replay.readLines_tail w (newline_not_mem_tail b)
  | error e =>
      rw [replay, hlines]
      exact Replay.readLines_append_error hall h _

/-- A file that does not replay. -/
def Ruined (json : JournalJson) (b : Bytes) : Prop := ∃ e, replay json b = .error e

/-- No append makes a ruined file readable again. -/
theorem Ruined.append {b : Bytes} (h : Ruined json b) (t : Bytes) : Ruined json (b ++ t) := by
  obtain ⟨e, he⟩ := h
  rw [replay_eq_body] at he
  refine ⟨e, ?_⟩
  rw [← body_append_tail b, List.append_assoc, replay, lines_append (body_ended b)]
  exact Replay.readLines_append_error (isTerminated_of_mem_lines (body_ended b)) he _

/-- And it cannot be opened. -/
theorem Ruined.not_opens {b : Bytes} (h : Ruined json b) (j : DeliveryJournal) :
    openJournal json b ≠ .ok j := by
  obtain ⟨e, he⟩ := h
  rw [openJournal, he]
  exact fun h => by cases h

/-- The file replays to what the journal remembers. -/
structure Intact (json : JournalJson) (j : DeliveryJournal) : Prop where
  ended : j.contents = [] ∨ isTerminated j.contents = true
  replays : replay json j.contents =
    .ok { attempts := j.attempts, expectedSeq := j.nextSeq, validLen := j.contents.length }

/-- An intact file opens as the journal it belongs to. -/
theorem Intact.opens {j : DeliveryJournal} (h : Intact json j) :
    openJournal json j.contents = .ok j := by
  rw [openJournal, h.replays]
  simp

/-- Opening a file leaves an intact one. -/
theorem intact_of_openJournal {b : Bytes} {j : DeliveryJournal} (h : openJournal json b = .ok j) :
    Intact json j := by
  rw [openJournal, replay_eq_body] at h
  cases hr : replay json (body b) with
  | error e => rw [hr] at h; cases h
  | ok w =>
      rw [hr] at h
      cases h
      have hlen : w.validLen = (body b).length := by
        have hcount := Replay.readLines_validLen (isTerminated_of_mem_lines (body_ended b)) hr
        rw [flatten_lines] at hcount
        simpa [Replay.initial] using hcount
      have htake : b.take w.validLen = body b := by
        have hleft : (body b ++ tail b).take (body b).length = body b := List.take_left
        rwa [body_append_tail, ← hlen] at hleft
      constructor
      · rw [htake]; exact body_ended b
      · rw [htake, hr, ← hlen]

/-! ### One append -/

/-- One call of `append` with what becomes of its write. -/
structure JournalCall where
  entry : JournalEntry
  io : Io

namespace JournalCall

variable (json) (j : DeliveryJournal) (c : JournalCall)

/-- The record the call would write. -/
def record : JournalRecord := { c.entry with seq := j.nextSeq }

/-- Whether the call gets as far as its write. -/
def accepted : Bool :=
  (validateTransition (j.latest c.entry.attemptId) (c.record j)).isOk &&
    (json.refusal (c.record j)).isNone

/-- The bytes the call adds to the file. -/
def written : Bytes :=
  if c.accepted json j then
    match c.io with
    | .writeFails written => (json.line (c.record j)).take written
    | _ => json.line (c.record j)
  else []

/-- The whole line landed, newline included. -/
def Lands : Prop := (json.encode (c.record j)).length < (c.written json j).length

/-- The journal after the call. -/
def after : DeliveryJournal := (j.append json c.entry c.io).1

/-- The call returned `Ok`. -/
def succeeds : Bool := (j.append json c.entry c.io).2.isOk

/-- The call failed with some of its line in the file. -/
def Spoils : Prop := c.succeeds json j = false ∧ c.written json j ≠ []

instance : Decidable (c.Lands json j) := inferInstanceAs (Decidable (_ < _))

instance : Decidable (c.Spoils json j) := inferInstanceAs (Decidable (_ ∧ _))

end JournalCall

/-- What a call can do to the journal. -/
inductive JournalCall.Outcome (json : JournalJson) (j : DeliveryJournal)
    (c : JournalCall) : Prop
  /-- Validation refuses the record. -/
  | refused (accepted : c.accepted json j = false) (written : c.written json j = [])
      (fails : c.succeeds json j = false) (after : c.after json j = j)
  /-- A piece of its text lands. -/
  | torn (piece : c.written json j <+: json.encode (c.record j))
      (accepted : c.accepted json j = true) (fails : c.succeeds json j = false)
      (after : c.after json j = { j with contents := j.contents ++ c.written json j })
  /-- The whole line lands, and the call fails all the same. -/
  | unheard (accepted : c.accepted json j = true)
      (written : c.written json j = json.line (c.record j))
      (fails : c.succeeds json j = false)
      (after : c.after json j = { j with contents := j.contents ++ json.line (c.record j) })
  /-- The whole line lands and the journal remembers the record. -/
  | done (accepted : c.accepted json j = true)
      (written : c.written json j = json.line (c.record j))
      (succeeds : c.succeeds json j = true) (room : j.nextSeq < u64Max)
      (after : c.after json j =
        { contents := j.contents ++ json.line (c.record j), nextSeq := j.nextSeq + 1,
          attempts := j.attempts.insert c.entry.attemptId (c.record j) })
      (returns : (j.append json c.entry c.io).2 = .ok (c.record j))

/-- What validation and the serializer said of an accepted record. -/
theorem JournalCall.of_accepted {j : DeliveryJournal} {c : JournalCall}
    (h : c.accepted json j = true) :
    validateTransition (j.latest c.entry.attemptId) (c.record j) = .ok () ∧
      json.refusal (c.record j) = none := by
  rw [accepted, Bool.and_eq_true, Option.isNone_iff_eq_none] at h
  refine ⟨?_, h.2⟩
  cases hv : validateTransition (j.latest c.entry.attemptId) (c.record j) with
  | error e => rw [hv] at h; cases h.1
  | ok u => rfl

/-- These are all. -/
theorem JournalCall.outcome (json : JournalJson) (j : DeliveryJournal)
    (c : JournalCall) : c.Outcome json j := by
  have happend := DeliveryJournal.append.eq_def json j c.entry c.io
  have hrecord : { c.entry with seq := j.nextSeq } = c.record j := rfl
  have hid : (c.record j).attemptId = c.entry.attemptId := rfl
  rw [hrecord] at happend
  dsimp only at happend
  rw [hid] at happend
  by_cases hno : c.accepted json j = false
  · -- Nothing is written: the record is invalid or has no text.
    have hrefused : ∃ e, j.append json c.entry c.io = (j, .error e) := by
      rw [happend]
      cases hv : validateTransition (j.latest c.entry.attemptId) (c.record j) with
      | error e => exact ⟨e, rfl⟩
      | ok u =>
          cases hr : json.refusal (c.record j) with
          | some message => exact ⟨_, rfl⟩
          | none => simp [accepted, hv, hr, Except.isOk, Except.toBool] at hno
    obtain ⟨e, he⟩ := hrefused
    refine .refused hno ?_ ?_ ?_
    · simp [written, hno]
    · rw [succeeds, he]; rfl
    · rw [after, he]
  · have hacc : c.accepted json j = true := by simpa using hno
    obtain ⟨hvalid, htext⟩ := JournalCall.of_accepted hacc
    rw [hvalid, htext] at happend
    dsimp only at happend
    cases hio : c.io with
    | writeFails k =>
        have hwritten : c.written json j = (json.line (c.record j)).take k := by
          simp [written, hacc, hio]
        rw [hio] at happend
        have hfail : c.succeeds json j = false := by rw [succeeds, hio, happend]; rfl
        have hafter : c.after json j =
            { j with contents := j.contents ++ (json.line (c.record j)).take k } := by
          rw [after, hio, happend]; rfl
        rcases Nat.lt_or_ge (json.encode (c.record j)).length k with hgt | hle
        · have hline := json.take_line_of_gt hgt
          rw [hline] at hwritten hafter
          exact .unheard hacc hwritten hfail hafter
        · have hpre : (json.line (c.record j)).take k <+: json.encode (c.record j) := by
            rw [Codec.line, List.take_append_of_le_length hle]
            exact List.take_prefix _ _
          rw [← hwritten] at hpre hafter
          exact .torn hpre hacc hfail hafter
    | syncFails =>
        have hwritten : c.written json j = json.line (c.record j) := by simp [written, hacc, hio]
        rw [hio] at happend
        refine .unheard hacc hwritten ?_ ?_
        · rw [succeeds, hio, happend]; rfl
        · rw [after, hio, happend]; rfl
    | done =>
        have hwritten : c.written json j = json.line (c.record j) := by simp [written, hacc, hio]
        rw [hio] at happend
        by_cases hmax : j.nextSeq < u64Max
        · have hadd : checkedAdd j.nextSeq 1 = some (j.nextSeq + 1) := by
            rw [checkedAdd, if_pos (by omega)]
          simp only [DeliveryJournal.writeRecord, hadd] at happend
          refine .done hacc hwritten ?_ hmax ?_ ?_
          · rw [succeeds, hio, happend]; rfl
          · rw [after, hio, happend]; rfl
          · rw [hio, happend]
        · have hadd : checkedAdd j.nextSeq 1 = none := by rw [checkedAdd, if_neg (by omega)]
          simp only [DeliveryJournal.writeRecord, hadd] at happend
          refine .unheard hacc hwritten ?_ ?_
          · rw [succeeds, hio, happend]; rfl
          · rw [after, hio, happend]

/-- A call that succeeds returns its record. -/
theorem JournalCall.returns_of_succeeds {j : DeliveryJournal} {c : JournalCall}
    (h : c.succeeds json j = true) : (j.append json c.entry c.io).2 = .ok (c.record j) := by
  cases c.outcome json j with
  | refused _ _ fails => rw [h] at fails; cases fails
  | torn _ _ fails => rw [h] at fails; cases fails
  | unheard _ _ fails => rw [h] at fails; cases fails
  | done _ _ _ _ _ returns => exact returns

/-- A call whose write fails does not succeed. -/
theorem JournalCall.fails_of_writeFails {j : DeliveryJournal} {c : JournalCall} {k : Nat}
    (h : c.io = .writeFails k) : c.succeeds json j = false := by
  rw [succeeds, h, DeliveryJournal.append]
  split
  · rfl
  · split <;> rfl

/-- A call that succeeds puts its record into the map. -/
theorem JournalCall.after_of_succeeds {j : DeliveryJournal} {c : JournalCall}
    (h : c.succeeds json j = true) :
    (c.after json j).attempts = j.attempts.insert c.entry.attemptId (c.record j) ∧
      validateTransition (j.latest c.entry.attemptId) (c.record j) = .ok () := by
  cases c.outcome json j with
  | refused _ _ fails => rw [h] at fails; cases fails
  | torn _ _ fails => rw [h] at fails; cases fails
  | unheard _ _ fails => rw [h] at fails; cases fails
  | done accepted _ _ _ after =>
      refine ⟨?_, (JournalCall.of_accepted accepted).1⟩
      rw [after]

/-- One that fails leaves it alone. -/
theorem JournalCall.after_of_fails {j : DeliveryJournal} {c : JournalCall}
    (h : c.succeeds json j = false) : (c.after json j).attempts = j.attempts := by
  cases c.outcome json j with
  | refused _ _ _ after => rw [after]
  | torn _ _ _ after => rw [after]
  | unheard _ _ _ after => rw [after]
  | done _ _ succeeds => rw [h] at succeeds; cases succeeds

/-! ### Bytes the journal does not know of -/

/-- The file of a journal some of whose appends failed: what it
remembers, then perhaps the line of a record it does not, then pieces
of lines. -/
structure Behind (json : JournalJson) (j : DeliveryJournal) (base : Bytes)
    (landed : Option JournalRecord) (pieces : List Bytes) : Prop where
  intact : Intact json { j with contents := base }
  contents : j.contents = base ++ (json.render landed.toList ++ pieces.flatten)
  next : ∀ r ∈ landed, json.refusal r = none ∧ r.seq = j.nextSeq ∧
    validateTransition (j.latest r.attemptId) r = .ok () ∧ j.nextSeq < u64Max
  pieces : ∀ p ∈ pieces, ∃ r, json.refusal r = none ∧ p <+: json.encode r

/-- Something the journal does not know of is in the file. -/
def Astray (landed : Option JournalRecord) (pieces : List Bytes) : Prop :=
  landed ≠ none ∨ pieces.flatten ≠ []

section behind

variable {j : DeliveryJournal} {base : Bytes} {landed : Option JournalRecord}
  {pieces : List Bytes}

/-- An intact file has nothing astray. -/
theorem Intact.behind (h : Intact json j) : Behind json j j.contents none [] where
  intact := h
  contents := by simp
  next := by simp
  pieces := by simp

variable (hjson : json.Lawful)
include hjson

/-- Pieces of lines hold no newline. -/
theorem newline_not_mem_pieces (h : ∀ p ∈ pieces, ∃ r, json.refusal r = none ∧ p <+: json.encode r) :
    newline ∉ pieces.flatten := by
  intro hmem
  obtain ⟨p, hp, hnl⟩ := List.mem_flatten.1 hmem
  obtain ⟨r, hr, hpre⟩ := h p hp
  exact (hjson.faithful r hr).oneLine (hpre.subset hnl)

/-- What the reader has before the pieces: the journal's own memory,
and the record that landed unheard. -/
theorem Behind.readBase (h : Behind json j base landed pieces) :
    replay json (base ++ json.render landed.toList) =
        .ok { attempts := landed.toList.foldl (fun m r => m.insert r.attemptId r) j.attempts,
              expectedSeq := j.nextSeq + landed.toList.length,
              validLen := (base ++ json.render landed.toList).length } := by
  have hreplays := h.intact.replays
  dsimp only at hreplays
  cases landed with
  | none => simpa using hreplays
  | some r =>
      obtain ⟨htext, hseq, hvalid, hmax⟩ := h.next r rfl
      have hfaithful := hjson.faithful r htext
      let w : Replay :=
        { attempts := j.attempts, expectedSeq := j.nextSeq, validLen := base.length }
      have hread : w.readRecord json (json.encode r) = _ :=
        Replay.readRecord_encode hfaithful hseq hvalid hmax
      have hline := Replay.readLines_line json w hfaithful.oneLine
      rw [hread] at hline
      simp only [Option.toList_some, Codec.render_cons, Codec.render_nil, List.append_nil]
      rw [replay_append h.intact.ended hreplays, Codec.line, hline]
      simp [Codec.line, w]

omit hjson in
/-- Bytes before the pieces end a line. -/
theorem Behind.ended (h : Behind json j base landed pieces) :
    base ++ json.render landed.toList = [] ∨
      isTerminated (base ++ json.render landed.toList) = true := by
  rcases json.render_terminated landed.toList with hnil | hterm
  · rw [hnil, List.append_nil]
    exact h.intact.ended
  · refine .inr ?_
    simp only [isTerminated, beq_iff_eq] at hterm ⊢
    rw [List.getLast?_append, hterm]
    rfl

/-- Opening such a file gives what the journal remembers, and the
record that landed unheard. -/
theorem Behind.opens (h : Behind json j base landed pieces) :
    openJournal json j.contents =
      .ok { contents := base ++ json.render landed.toList,
            nextSeq := j.nextSeq + landed.toList.length,
            attempts := landed.toList.foldl (fun m r => m.insert r.attemptId r) j.attempts } := by
  have hbase := h.readBase hjson
  rw [h.contents, ← List.append_assoc, openJournal, replay_append h.ended hbase,
    Replay.readLines_tail _ (newline_not_mem_pieces hjson h.pieces)]
  simp only [List.take_left]

/-- Once something is astray, the next whole line ruins the file. -/
theorem Behind.ruined (h : Behind json j base landed pieces) (hastray : Astray landed pieces)
    {r : JournalRecord} (hr : json.refusal r = none) (hseq : r.seq = j.nextSeq) :
    Ruined json (j.contents ++ json.line r) := by
  have hfaithful := hjson.faithful r hr
  have hnl : newline ∉ pieces.flatten ++ json.encode r := by
    rw [List.mem_append, not_or]
    exact ⟨newline_not_mem_pieces hjson h.pieces, hfaithful.oneLine⟩
  have hwhole : j.contents ++ json.line r =
      base ++ json.render landed.toList ++ (pieces.flatten ++ json.encode r ++ [newline]) := by
    rw [h.contents, Codec.line]
    simp only [List.append_assoc]
  rw [Ruined, hwhole, replay_append h.ended (h.readBase hjson), Replay.readLines_line json _ hnl]
  by_cases hscraps : pieces.flatten = []
  · -- No pieces: the line itself is whole, but its number has been used.
    rw [hscraps, List.nil_append]
    refine Replay.readRecord_of_seq_ne hfaithful ?_
    have hsome : landed ≠ none := hastray.resolve_right (not_not_intro hscraps)
    cases landed with
    | none => exact absurd rfl hsome
    | some r' => simp only [Option.toList_some, List.length_singleton, hseq]; omega
  · -- The pieces and the line are glued together.
    refine Replay.readRecord_of_not_parses ?_
    have hne : json.encode r ≠ [] := by
      intro hnil
      have hblank := hfaithful.notBlank
      simp [hnil, isBlank] at hblank
    refine hjson.glueFree.not_parses_append hscraps hne fun p hp => ?_
    rcases List.mem_append.1 hp with hp | hp
    · exact h.pieces p hp
    · exact ⟨r, hr, by rw [List.mem_singleton.1 hp]⟩

end behind

end Yaldabaoth
