import Yaldabaoth.Lib.Machine
import Yaldabaoth.Proofs.Cog.JournalFaults

/-!
# `Yaldabaoth.Proofs.Cog.JournalCrashes`: journals that are cut and reopened

Appends that succeed, and crashes that cut the file anywhere inside the
line being written, each followed by an open of what is left.

`JournalRun` keeps the list of records whose line was completed beside
the journal. `JournalRun.tracks` says that the journal is always the
fold of exactly that list: no open fails, the file holds these records
and nothing else, and the next number is one past their count.
-/

set_option autoImplicit false

namespace Yaldabaoth

open LineLog

/-- A journal file in use: the journal opened last, or the error its
open failed with, and the records whose lines were completed. -/
structure JournalRun where
  journal : Except JournalError DeliveryJournal
  records : List JournalRecord

inductive JournalAct where
  /-- An append that succeeds. -/
  | append (entry : JournalEntry)
  /-- A crash after `cut` bytes of the line of this append, none of
  them its newline; then an open. -/
  | crash (entry : JournalEntry) (cut : Nat)
  /-- A crash between two appends; then an open. -/
  | reopen

namespace JournalRun

variable (json : JournalJson)

def step (s : JournalRun) (a : JournalAct) : Option JournalRun :=
  match s.journal with
  | .error _ => none
  | .ok j =>
      match a with
      | .append entry =>
          match j.append json entry .done with
          | (_, .error _) => none
          | (j', .ok r)   => some { journal := .ok j', records := s.records ++ [r] }
      | .crash entry cut =>
          if cut ≤ (json.encode { entry with seq := j.nextSeq }).length then
            let left := (j.append json entry (.writeFails cut)).1.contents
            some { s with journal := openJournal json left }
          else none
      | .reopen => some { s with journal := openJournal json j.contents }

/-- The runs that start from a file that does not exist yet. -/
def machine : Machine JournalRun JournalAct where
  start s := s = { journal := openJournal json [], records := [] }
  step := step json

/-- The journal is open, its file holds the records and nothing else,
and its memory is their fold. -/
structure Tracks (s : JournalRun) (j : DeliveryJournal) : Prop where
  opened : s.journal = .ok j
  intact : Intact json j
  contents : j.contents = json.render s.records
  attempts : j.attempts = foldRecords ∅ s.records
  nextSeq : j.nextSeq = s.records.length + 1

variable {json}

/-- An append adds its record at the end. -/
theorem Tracks.append (hjson : json.Lawful) {s : JournalRun} {j j' : DeliveryJournal}
    {entry : JournalEntry} {r : JournalRecord} (h : s.Tracks json j)
    (happend : j.append json entry .done = (j', .ok r)) :
    Tracks json { journal := .ok j', records := s.records ++ [r] } j' := by
  let c : JournalCall := ⟨entry, .done⟩
  have hafter : c.after json j = j' := congrArg Prod.fst happend
  have hok : c.succeeds json j = true := by
    show (j.append json entry .done).2.isOk = true
    rw [happend]
    rfl
  cases c.outcome json j with
  | refused _ _ fails => rw [hok] at fails; cases fails
  | torn _ _ fails => rw [hok] at fails; cases fails
  | unheard _ _ fails => rw [hok] at fails; cases fails
  | done accepted written succeeds room after returns =>
      have hr : c.record j = r := by
        have hres : Except.ok r = .ok (c.record j) := (congrArg Prod.snd happend).symm.trans returns
        cases hres
        rfl
      subst hr
      rw [hafter] at after
      subst after
      have hfaithful := hjson.faithful _ (JournalCall.of_accepted accepted).2
      refine ⟨rfl, h.intact.done hfaithful accepted room, ?_, ?_, ?_⟩
      · simp [h.contents]
      · simp [h.attempts, foldRecords]
        rfl
      · simp [h.nextSeq]

/-- A crash inside the line costs nothing but that line. -/
theorem Tracks.crash (hjson : json.Lawful) {s : JournalRun} {j : DeliveryJournal}
    {entry : JournalEntry} {cut : Nat} (h : s.Tracks json j)
    (hcut : cut ≤ (json.encode { entry with seq := j.nextSeq }).length) :
    openJournal json (j.append json entry (.writeFails cut)).1.contents = .ok j := by
  let c : JournalCall := ⟨entry, .writeFails cut⟩
  show openJournal json (c.after json j).contents = .ok j
  have hno : ¬ c.Lands json j := by
    have hle : (c.written json j).length ≤ cut := by
      rw [JournalCall.written]
      split
      · exact List.length_take_le _ _
      · exact Nat.zero_le _
    exact Nat.not_lt.2 (hle.trans hcut)
  cases c.outcome json j with
  | refused _ _ _ after =>
      rw [after]
      exact h.intact.opens
  | torn piece accepted _ after =>
      have hback := h.intact.behind.torn accepted piece
      have hopen := hback.opens hjson
      rw [after]
      simpa using hopen
  | unheard _ written => exact absurd (JournalCall.lands_of_line written) hno
  | done _ written => exact absurd (JournalCall.lands_of_line written) hno

/-- Nothing on file: the first journal of a run. -/
theorem tracks_start : Tracks json { journal := openJournal json [], records := [] } emptyJournal :=
  { opened := rfl
    intact := ⟨.inl rfl, rfl⟩
    contents := rfl
    attempts := rfl
    nextSeq := rfl }

/-- One step. -/
theorem Tracks.step (hjson : json.Lawful) {s s' : JournalRun} {a : JournalAct}
    {j : DeliveryJournal} (h : s.Tracks json j) (hs : s.step json a = some s') :
    ∃ j', s'.Tracks json j' := by
  rw [JournalRun.step, h.opened] at hs
  cases a with
  | append entry =>
      dsimp only at hs
      cases hres : j.append json entry .done with
      | mk j' result =>
          cases result with
          | error e => rw [hres] at hs; cases hs
          | ok r =>
              rw [hres] at hs
              cases hs
              exact ⟨j', h.append hjson hres⟩
  | crash entry cut =>
      dsimp only at hs
      split at hs
      · next hcut =>
          cases hs
          have hopen := h.crash hjson hcut
          exact ⟨j, { h with opened := hopen }⟩
      · cases hs
  | reopen =>
      cases hs
      exact ⟨j, { h with opened := h.intact.opens }⟩

/-- After any appends that succeed and any crashes inside a line, each
followed by an open: the open succeeded, the journal is the fold of
exactly the records whose line was completed, with the next number one
past their count, the file is cut to these records, and a further open
sees them all. -/
theorem tracks (json : JournalJson) (hjson : json.Lawful) (s : JournalRun)
    (hs : (machine json).Reachable s) :
    ∃ j, s.journal = .ok j ∧
      j.snapshot = { nextSeq := s.records.length + 1, attempts := foldRecords ∅ s.records } ∧
      j.contents = json.render s.records ∧
      openJournal json j.contents = .ok j := by
  have hinv : ∃ j, s.Tracks json j := by
    refine hs.invariant (P := fun s => ∃ j, s.Tracks json j) ?_ ?_
    · rintro s rfl
      exact ⟨_, tracks_start⟩
    · rintro s a s' ⟨j, hj⟩ - hstep
      exact hj.step hjson hstep
  obtain ⟨j, hj⟩ := hinv
  refine ⟨j, hj.opened, ?_, hj.contents, hj.intact.opens⟩
  rw [DeliveryJournal.snapshot, hj.nextSeq, hj.attempts]

/-- A claim, a crash three bytes into the next line, and that line
again. -/
def cutRun : List JournalAct := [.append sampleEntry, .crash sampleEntry 3, .append sampleEntry]

theorem tracks_cutRun :
    ((machine sampleEntryJson).run
        { journal := openJournal sampleEntryJson [], records := [] } cutRun).map (·.records) =
      some [{ sampleEntry with seq := 1 }, { sampleEntry with seq := 2 }] ∧
    ∀ s ∈ (machine sampleEntryJson).run
        { journal := openJournal sampleEntryJson [], records := [] } cutRun,
      ∃ j, s.journal = .ok j ∧
        j.snapshot = { nextSeq := s.records.length + 1, attempts := foldRecords ∅ s.records } ∧
        j.contents = sampleEntryJson.render s.records ∧
        openJournal sampleEntryJson j.contents = .ok j :=
  ⟨by decide, fun s hrun =>
    tracks sampleEntryJson sampleEntryJson_lawful s (Machine.reachable_of_run rfl hrun)⟩

end JournalRun

end Yaldabaoth
