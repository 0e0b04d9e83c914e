import Yaldabaoth.Proofs.Cog.JournalFile

/-!
# `Yaldabaoth.Proofs.Cog.JournalFaults`: appends whose writes fail

One journal, any appends, any write or sync failing, and the journal
used on regardless. `append` changes the file before it changes the
memory, so a failed one can leave bytes behind that the next one builds
on.

`recovers_iff` says exactly when a later open succeeds with every
acknowledged record in its state: as long as no append completes its
line after one that failed with something written (and none has the
last sequence number).
-/

set_option autoImplicit false

namespace Yaldabaoth

open LineLog

/-! ### Runs of appends -/

/-- The journal after a list of calls. -/
def appendAll (json : JournalJson) : DeliveryJournal → List JournalCall → DeliveryJournal
  | j, [] => j
  | j, c :: cs => appendAll json (c.after json j) cs

/-- The records whose append returned `Ok`. -/
def acknowledged (json : JournalJson) :
    DeliveryJournal → List JournalCall → List JournalRecord
  | _, [] => []
  | j, c :: cs =>
      (if c.succeeds json j then [c.record j] else []) ++ acknowledged json (c.after json j) cs

/-- The records that some call wrote or tried to. -/
def attempted (json : JournalJson) :
    DeliveryJournal → List JournalCall → List JournalRecord
  | _, [] => []
  | j, c :: cs =>
      (if c.accepted json j then [c.record j] else []) ++ attempted json (c.after json j) cs

/-- No call completes its line. -/
def NoneLands (json : JournalJson) : DeliveryJournal → List JournalCall → Prop
  | _, [] => True
  | j, c :: cs => ¬ c.Lands json j ∧ NoneLands json (c.after json j) cs

/-- After a call that failed with something written no call completes
its line, and no line with the last sequence number is completed. -/
def Unspoiled (json : JournalJson) : DeliveryJournal → List JournalCall → Prop
  | _, [] => True
  | j, c :: cs =>
      (c.Lands json j → j.nextSeq < u64Max) ∧
        (c.Spoils json j → NoneLands json (c.after json j) cs) ∧
        Unspoiled json (c.after json j) cs

instance decidableNoneLands (json : JournalJson) :
    ∀ (j : DeliveryJournal) (cs : List JournalCall), Decidable (NoneLands json j cs)
  | _, [] => .isTrue trivial
  | j, c :: cs =>
      have := decidableNoneLands json (c.after json j) cs
      inferInstanceAs (Decidable (_ ∧ _))

instance decidableUnspoiled (json : JournalJson) :
    ∀ (j : DeliveryJournal) (cs : List JournalCall), Decidable (Unspoiled json j cs)
  | _, [] => .isTrue trivial
  | j, c :: cs =>
      have := decidableUnspoiled json (c.after json j) cs
      inferInstanceAs (Decidable ((_ → _) ∧ (_ → _) ∧ _))

/-- The map once these records are folded into it. -/
def foldRecords (attempts : IdMap JournalRecord) (rs : List JournalRecord) : IdMap JournalRecord :=
  rs.foldl (fun m r => m.insert r.attemptId r) attempts

/-- A later open succeeds, and its state is what the journal started
from with records of the calls folded in, every acknowledged one among
them. -/
def Recovers (json : JournalJson) (j : DeliveryJournal) (calls : List JournalCall) :
    Prop :=
  ∃ j' rs, openJournal json (appendAll json j calls).contents = .ok j' ∧
    (acknowledged json j calls).Sublist rs ∧ rs.Sublist (attempted json j calls) ∧
    j'.attempts = foldRecords j.attempts rs ∧ j'.nextSeq = j.nextSeq + rs.length

/-! ### What one call leaves -/

variable {json : JournalJson} {j : DeliveryJournal}
  {c : JournalCall} {cs : List JournalCall}

/-- A whole line has landed when it was written whole. -/
theorem JournalCall.lands_of_line (h : c.written json j = json.line (c.record j)) :
    c.Lands json j := by
  rw [Lands, h, Codec.length_line]
  omega

/-- A piece of the text is not the line. -/
theorem JournalCall.not_lands_of_piece (h : c.written json j <+: json.encode (c.record j)) :
    ¬ c.Lands json j :=
  Nat.not_lt.2 h.length_le

/-- A call that is refused writes nothing. -/
theorem JournalCall.not_lands_of_refused (h : c.written json j = []) : ¬ c.Lands json j := by
  rw [Lands, h]
  simp

/-- Lines do not vanish: a list none of whose calls lands is unspoiled. -/
theorem unspoiled_of_noneLands (h : NoneLands json j cs) : Unspoiled json j cs := by
  induction cs generalizing j with
  | nil => trivial
  | cons c cs ih =>
      obtain ⟨hc, hcs⟩ := h
      exact ⟨fun hl => absurd hl hc, fun _ => hcs, ih hcs⟩

/-- What calls do to a ruined file leaves it ruined. -/
theorem ruined_appendAll (h : Ruined json j.contents) :
    Ruined json (appendAll json j cs).contents := by
  induction cs generalizing j with
  | nil => exact h
  | cons c cs ih =>
      refine ih ?_
      cases c.outcome json j with
      | refused _ _ _ after => rw [after]; exact h
      | torn _ _ _ after => rw [after]; exact h.append _
      | unheard _ _ _ after => rw [after]; exact h.append _
      | done _ _ _ _ after => rw [after]; exact h.append _

/-! ### Once something is astray -/

variable {base : Bytes} {landed : Option JournalRecord} {pieces : List Bytes}

/-- A torn call adds its piece. -/
theorem Behind.torn (h : Behind json j base landed pieces) (accepted : c.accepted json j = true)
    (piece : c.written json j <+: json.encode (c.record j)) :
    Behind json { j with contents := j.contents ++ c.written json j } base landed
      (pieces ++ [c.written json j]) where
  intact := h.intact
  contents := by simp [h.contents]
  next := h.next
  pieces := by
    intro p hp
    rcases List.mem_append.1 hp with hp | hp
    · exact h.pieces p hp
    · rw [List.mem_singleton.1 hp]
      exact ⟨_, (JournalCall.of_accepted accepted).2, piece⟩

/-- Without a whole line the file goes on holding what it held, and
nothing more is acknowledged. -/
theorem Behind.appendAll_of_noneLands (h : Behind json j base landed pieces) (hcs : NoneLands json j cs) :
    acknowledged json j cs = [] ∧
      ∃ more, Behind json (appendAll json j cs) base landed (pieces ++ more) ∧
        (appendAll json j cs).nextSeq = j.nextSeq ∧
        (appendAll json j cs).attempts = j.attempts := by
  induction cs generalizing j pieces with
  | nil => exact ⟨rfl, [], by rw [List.append_nil]; exact h, rfl, rfl⟩
  | cons c cs ih =>
      obtain ⟨hc, hcs⟩ := hcs
      cases c.outcome json j with
      | refused accepted written fails after =>
          have hback : Behind json (c.after json j) base landed pieces := by rw [after]; exact h
          obtain ⟨hack, more, hmore, hseq, hatt⟩ := ih hback hcs
          refine ⟨?_, more, hmore, ?_, ?_⟩
          · simp [acknowledged, fails, hack]
          · rw [appendAll, hseq, after]
          · rw [appendAll, hatt, after]
      | torn piece accepted fails after =>
          have hback : Behind json (c.after json j) base landed
              (pieces ++ [c.written json j]) := by
            rw [after]
            exact h.torn accepted piece
          obtain ⟨hack, more, hmore, hseq, hatt⟩ := ih hback hcs
          refine ⟨?_, [c.written json j] ++ more, ?_, ?_, ?_⟩
          · simp [acknowledged, fails, hack]
          · rw [← List.append_assoc]; exact hmore
          · rw [appendAll, hseq, after]
          · rw [appendAll, hatt, after]
      | unheard _ written => exact absurd (JournalCall.lands_of_line written) hc
      | done _ written => exact absurd (JournalCall.lands_of_line written) hc

/-- With a whole line the file is ruined. -/
theorem Behind.ruined_of_lands (hjson : json.Lawful) (h : Behind json j base landed pieces)
    (hastray : Astray landed pieces) (hcs : ¬ NoneLands json j cs) :
    Ruined json (appendAll json j cs).contents := by
  induction cs generalizing j pieces with
  | nil => exact absurd trivial hcs
  | cons c cs ih =>
      have hline : c.accepted json j = true → Ruined json (j.contents ++ json.line (c.record j)) :=
        fun hacc => h.ruined hjson hastray (JournalCall.of_accepted hacc).2 rfl
      rw [appendAll]
      cases c.outcome json j with
      | refused accepted written fails after =>
          have hno : ¬ NoneLands json (c.after json j) cs :=
            fun hn => hcs ⟨JournalCall.not_lands_of_refused written, hn⟩
          rw [after] at hno ⊢
          exact ih h hastray hno
      | torn piece accepted fails after =>
          have hno : ¬ NoneLands json (c.after json j) cs :=
            fun hn => hcs ⟨JournalCall.not_lands_of_piece piece, hn⟩
          have hback : Behind json (c.after json j) base landed
              (pieces ++ [c.written json j]) := by
            rw [after]
            exact h.torn accepted piece
          refine ih hback (hastray.imp id fun hne hnil => hne ?_) hno
          rw [List.flatten_append] at hnil
          exact (List.append_eq_nil_iff.1 hnil).1
      | unheard accepted written fails after =>
          refine ruined_appendAll ?_
          rw [after]
          exact hline accepted
      | done accepted written succeeds room after =>
          refine ruined_appendAll ?_
          rw [after]
          exact hline accepted

/-! ### From an intact journal -/

/-- A call that succeeds leaves the file intact. -/
theorem Intact.done (h : Intact json j) (hc : json.Faithful (c.record j))
    (accepted : c.accepted json j = true) (room : j.nextSeq < u64Max) :
    Intact json
      { contents := j.contents ++ json.line (c.record j), nextSeq := j.nextSeq + 1,
        attempts := j.attempts.insert c.entry.attemptId (c.record j) } := by
  have hvalid := (JournalCall.of_accepted accepted).1
  let w : Replay :=
    { attempts := j.attempts, expectedSeq := j.nextSeq, validLen := j.contents.length }
  have hread : w.readRecord json (json.encode (c.record j)) = _ :=
    Replay.readRecord_encode hc rfl hvalid room
  have hline := Replay.readLines_line json w hc.oneLine
  constructor
  · refine .inr ?_
    rw [Codec.line, ← List.append_assoc]
    exact isTerminated_append_newline _
  · show replay json (j.contents ++ json.line (c.record j)) = _
    rw [replay_append h.ended h.replays, Codec.line, hline, hread]
    simp [Codec.line, w]
    rfl

/-- A line that landed unheard leaves the file behind. -/
theorem Intact.unheard (h : Intact json j) (accepted : c.accepted json j = true)
    (room : j.nextSeq < u64Max) :
    Behind json { j with contents := j.contents ++ json.line (c.record j) } j.contents
      (some (c.record j)) [] where
  intact := h
  contents := by simp
  next := by
    intro r hr
    cases hr
    obtain ⟨hvalid, htext⟩ := JournalCall.of_accepted accepted
    exact ⟨htext, rfl, hvalid, room⟩
  pieces := by simp

/-- The last number of all: the line itself cannot be replayed. -/
theorem Intact.exhausted (hjson : json.Lawful) (h : Intact json j) {r : JournalRecord}
    (hr : json.refusal r = none) (hroom : ¬ j.nextSeq < u64Max) :
    Ruined json (j.contents ++ json.line r) := by
  have hfaithful := hjson.faithful r hr
  rw [Ruined, replay_append h.ended h.replays, Codec.line,
    Replay.readLines_line json _ hfaithful.oneLine]
  exact Replay.readRecord_of_exhausted hfaithful (Nat.not_lt.1 hroom)

/-- From a file that is behind, a run without a whole line acknowledges
nothing and leaves a file that opens. -/
theorem Behind.reopens (hjson : json.Lawful) (h : Behind json j base landed pieces)
    (hcs : NoneLands json j cs) :
    acknowledged json j cs = [] ∧
      ∃ j', openJournal json (appendAll json j cs).contents = .ok j' ∧
        j'.attempts = foldRecords j.attempts landed.toList ∧
        j'.nextSeq = j.nextSeq + landed.toList.length := by
  obtain ⟨hack, more, hmore, hseq, hatt⟩ := h.appendAll_of_noneLands hcs
  refine ⟨hack, _, hmore.opens hjson, ?_, ?_⟩
  · rw [hatt]; rfl
  · rw [hseq]

/-- A call in front that left the memory as it was, unheard. -/
theorem Recovers.cons_of_fails (fails : c.succeeds json j = false)
    (hatt : (c.after json j).attempts = j.attempts) (hseq : (c.after json j).nextSeq = j.nextSeq)
    (h : Recovers json (c.after json j) cs) : Recovers json j (c :: cs) := by
  obtain ⟨j', rs, hopen, hacked, htried, hfold, hnext⟩ := h
  refine ⟨j', rs, hopen, ?_, ?_, ?_, ?_⟩
  · simpa [acknowledged, fails] using hacked
  · exact htried.trans (List.sublist_append_right _ _)
  · rw [hfold, hatt]
  · rw [hnext, hseq]

/-- An unspoiled run recovers. -/
theorem Intact.recovers (hjson : json.Lawful) (h : Intact json j) (hcs : Unspoiled json j cs) : Recovers json j cs := by
  induction cs generalizing j with
  | nil => exact ⟨j, [], h.opens, .slnil, .slnil, rfl, rfl⟩
  | cons c cs ih =>
      obtain ⟨hmax, hspoils, hrest⟩ := hcs
      cases c.outcome json j with
      | refused accepted written fails after =>
          refine .cons_of_fails fails (by rw [after]) (by rw [after]) ?_
          exact ih (by rw [after]; exact h) hrest
      | torn piece accepted fails after =>
          refine .cons_of_fails fails (by rw [after]) (by rw [after]) ?_
          by_cases hnil : c.written json j = []
          · -- Nothing landed, so the file is as it was.
            refine ih ?_ hrest
            rw [after, hnil, List.append_nil]
            exact h
          · have hback := h.behind.torn accepted piece
            rw [← after] at hback
            obtain ⟨hack, j', hopen, hatt, hseq⟩ := hback.reopens hjson (hspoils ⟨fails, hnil⟩)
            exact ⟨j', [], hopen, by rw [hack], List.nil_sublist _, hatt, hseq⟩
      | unheard accepted written fails after =>
          have hroom := hmax (JournalCall.lands_of_line written)
          have hback := h.unheard accepted hroom
          rw [← after] at hback
          have hne : c.written json j ≠ [] := by rw [written, Codec.line]; simp
          obtain ⟨hack, j', hopen, hatt, hseq⟩ := hback.reopens hjson (hspoils ⟨fails, hne⟩)
          refine ⟨j', [c.record j], hopen, ?_, ?_, ?_, ?_⟩
          · simp [acknowledged, fails, hack]
          · simp [attempted, accepted]
          · rw [hatt, after]; rfl
          · rw [hseq, after]; rfl
      | done accepted written succeeds room after =>
          have hintact := h.done (hjson.faithful _ (JournalCall.of_accepted accepted).2) accepted room
          rw [← after] at hintact
          obtain ⟨j', rs, hopen, hacked, htried, hfold, hnext⟩ := ih hintact hrest
          refine ⟨j', c.record j :: rs, hopen, ?_, ?_, ?_, ?_⟩
          · simpa [acknowledged, succeeds] using hacked
          · simpa [attempted, accepted] using htried
          · rw [hfold, after]; rfl
          · rw [hnext, after, List.length_cons]
            dsimp only
            omega

/-- A spoiled run ruins the file. -/
theorem Intact.ruined (hjson : json.Lawful) (h : Intact json j) (hcs : ¬ Unspoiled json j cs) :
    Ruined json (appendAll json j cs).contents := by
  induction cs generalizing j with
  | nil => exact absurd trivial hcs
  | cons c cs ih =>
      rw [appendAll]
      cases c.outcome json j with
      | refused accepted written fails after =>
          have hno : ¬ Unspoiled json (c.after json j) cs := fun hu => hcs
            ⟨fun hl => absurd hl (JournalCall.not_lands_of_refused written),
              fun hs => absurd written hs.2, hu⟩
          exact ih (by rw [after]; exact h) hno
      | torn piece accepted fails after =>
          have hback := h.behind.torn accepted piece
          rw [← after] at hback
          by_cases hnone : NoneLands json (c.after json j) cs
          · exact absurd ⟨fun hl => absurd hl (JournalCall.not_lands_of_piece piece),
              fun _ => hnone, unspoiled_of_noneLands hnone⟩ hcs
          · by_cases hnil : c.written json j = []
            · have hno : ¬ Unspoiled json (c.after json j) cs := fun hu => hcs
                ⟨fun hl => absurd hl (JournalCall.not_lands_of_piece piece),
                  fun hs => absurd hnil hs.2, hu⟩
              refine ih ?_ hno
              rw [after, hnil, List.append_nil]
              exact h
            · exact hback.ruined_of_lands hjson (.inr (by simpa using hnil)) hnone
      | unheard accepted written fails after =>
          by_cases hroom : j.nextSeq < u64Max
          · have hback := h.unheard accepted hroom
            rw [← after] at hback
            by_cases hnone : NoneLands json (c.after json j) cs
            · exact absurd ⟨fun _ => hroom, fun _ => hnone, unspoiled_of_noneLands hnone⟩ hcs
            · exact hback.ruined_of_lands hjson (.inl (by simp)) hnone
          · refine ruined_appendAll ?_
            rw [after]
            exact h.exhausted hjson (JournalCall.of_accepted accepted).2 hroom
      | done accepted written succeeds room after =>
          have hintact := h.done (hjson.faithful _ (JournalCall.of_accepted accepted).2) accepted room
          rw [← after] at hintact
          have hno : ¬ Unspoiled json (c.after json j) cs := fun hu => hcs
            ⟨fun _ => room, fun hs => absurd succeeds (by rw [hs.1]; simp), hu⟩
          exact ih hintact hno

/-- A later open succeeds with every acknowledged record in its state
exactly when no append completes its line after one that failed with
something written, and none completes a line with the last number. -/
theorem recovers_iff (json : JournalJson) (hjson : json.Lawful) (contents : Bytes)
    (j : DeliveryJournal) (calls : List JournalCall) (hopen : openJournal json contents = .ok j) :
    Recovers json j calls ↔ Unspoiled json j calls := by
  have hintact := intact_of_openJournal hopen
  constructor
  · rintro ⟨j', rs, hj', -⟩
    by_contra hspoiled
    exact (hintact.ruined hjson hspoiled).not_opens j' hj'
  · exact hintact.recovers hjson

/-! ### Two claims of one attempt -/

/-- An attempt `a` of a delivery `d` to `x`, claimed. -/
def sampleEntry : JournalEntry :=
  { at_ := ⟨"2026-08-25T18:02:03.000000000Z"⟩, attemptId := ⟨"a", by decide⟩,
    deliveryKey := ⟨"d", by decide⟩,
    payloadDigest := ⟨String.ofList (List.replicate 64 '0'), by decide⟩,
    addressId := ⟨"x", by decide⟩, hostFence := 1, ownerGeneration := 1, attemptFence := 1,
    state := .claimed }

/-- A serializer that knows the listed records and refuses all others. -/
def JournalJson.ofRows (rows : List (JournalRecord × Bytes)) : JournalJson :=
  { Codec.ofTable rows with
    refusal := fun r => if r ∈ rows.map Prod.fst then none else some "no text" }

/-- It is lawful when the table is in order and a brace opens each text
and stands nowhere else in it. -/
theorem JournalJson.ofRows_lawful {rows : List (JournalRecord × Bytes)} (hrows : Codec.TableOk rows)
    (hopen : ∀ row ∈ rows, row.2.head? = some 123 ∧ row.2.count 123 = 1) :
    (JournalJson.ofRows rows).Lawful := by
  have hmem : ∀ r, (JournalJson.ofRows rows).refusal r = none → r ∈ rows.map Prod.fst := by
    intro r hr
    by_contra hno
    simp [JournalJson.ofRows, hno] at hr
  constructor
  · intro r hr
    obtain ⟨⟨r, t⟩, hrow, rfl⟩ := List.mem_map.1 (hmem r hr)
    exact Codec.ofTable_faithful hrows hrow
  · exact (Codec.ofTable_glueFree hrows (by decide) hopen).mono hmem

/-- The texts of the first two claims. -/
def sampleEntryRows : List (JournalRecord × Bytes) :=
  [({ sampleEntry with seq := 1 }, ascii "\x7b\"seq\":\"1\"\x7d"),
    ({ sampleEntry with seq := 2 }, ascii "\x7b\"seq\":\"2\"\x7d")]

def sampleEntryJson : JournalJson := .ofRows sampleEntryRows

theorem sampleEntryJson_lawful : sampleEntryJson.Lawful :=
  JournalJson.ofRows_lawful
    { nodup := by decide
      oneLine := by decide
      notBlank := by decide
      prefixFree := by decide }
    (by decide)

/-- An empty journal. -/
def emptyJournal : DeliveryJournal := { contents := [], nextSeq := 1, attempts := ∅ }

/-- A claim, its renewal cut after three bytes. -/
theorem recovers_iff_sample :
    Recovers sampleEntryJson emptyJournal
        [⟨sampleEntry, .done⟩, ⟨sampleEntry, .writeFails 3⟩] ↔
      Unspoiled sampleEntryJson emptyJournal
        [⟨sampleEntry, .done⟩, ⟨sampleEntry, .writeFails 3⟩] :=
  recovers_iff sampleEntryJson sampleEntryJson_lawful [] emptyJournal _ rfl

/-- A claim whose write fails after three bytes, then the same claim
again, acknowledged: no later open succeeds. -/
theorem torn_claim_loses_journal :
    acknowledged sampleEntryJson emptyJournal
        [⟨sampleEntry, .writeFails 3⟩, ⟨sampleEntry, .done⟩] = [{ sampleEntry with seq := 1 }] ∧
      ¬ Recovers sampleEntryJson emptyJournal
        [⟨sampleEntry, .writeFails 3⟩, ⟨sampleEntry, .done⟩] := by
  refine ⟨by decide, ?_⟩
  rintro ⟨j', rs, hopen, -⟩
  have hruined : openJournal sampleEntryJson
      (appendAll sampleEntryJson emptyJournal
        [⟨sampleEntry, .writeFails 3⟩, ⟨sampleEntry, .done⟩]).contents =
      .error (.invalidData "no such text") := rfl
  rw [hruined] at hopen
  cases hopen

end Yaldabaoth
