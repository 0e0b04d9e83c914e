import Yaldabaoth.Proofs.Session.Numbering
import Yaldabaoth.Proofs.Session.Steps
import Yaldabaoth.Proofs.Session.Windows

/-!
# `Yaldabaoth.Proofs.Session.Replay`: a replay from base

A client that attaches from base is sent the durable prefix, streamed
out of the file, and then the log in memory. In a run without faults of
the file that is the transcript on disk, event by event, except that a
trim's marker stands for the events it dropped (`replays`).
-/

set_option autoImplicit false

namespace Yaldabaoth

open LogWindow (Shows)

namespace ManagedSession

/-- What a replay from base of the session consists of. -/
structure Replays (s : ManagedSession) : Prop where
  /-- As many events are on disk as the log has positions. -/
  count : (s.disk.filterMap WalRecord.note?).length = s.eventLog.tipSeq
  /-- The events on disk are those the prefix streams, those a trim
  dropped, and those in memory; when there are dropped ones, their
  marker is in memory in front. -/
  events : ∃ before dropped after, s.disk.filterMap WalRecord.note? = before ++ dropped ++ after ∧
    before.length = s.logView.foldedLen ∧
    (∀ path, streamRecords path s.disk s.logView.foldedLen = .ok before) ∧
    (dropped = [] ∧ s.eventLog.entries = after ∨
      dropped ≠ [] ∧ ∃ marker, marker.isMarker = true ∧ s.eventLog.entries = marker :: after)

/-- A window of the transcript is replayed from base when the file holds
the transcript. -/
theorem replays_of_framed {s : ManagedSession} (hframed : s.logView.Framed)
    (hfile : s.disk.filterMap WalRecord.note? = s.history) : s.Replays := by
  have htip : s.eventLog.logBase + s.eventLog.entries.length = s.history.length := hframed.tip
  have hstart : s.logView.foldedLen ≤ s.eventLog.logBase := hframed.start_le
  have hle : s.logView.foldedLen ≤ s.history.length := by omega
  have hstream : ∀ path, streamRecords path s.disk s.logView.foldedLen =
      .ok (s.history.take s.logView.foldedLen) := by
    intro path
    have hlen : ¬ (s.history.take s.logView.foldedLen).length < s.logView.foldedLen := by
      rw [List.length_take]
      omega
    rw [streamRecords, streamed, hfile, if_neg hlen]
  have htake : (s.history.take s.logView.foldedLen).length = s.logView.foldedLen := by
    rw [List.length_take]
    omega
  constructor
  · rw [hfile, ← htip]
    rfl
  · rcases hframed.shape with ⟨-, hentries⟩ | ⟨marker, hmarker, hentries⟩
    · refine ⟨_, [], s.history.drop s.logView.foldedLen, ?_, htake, hstream,
        .inl ⟨rfl, hentries⟩⟩
      rw [hfile, List.append_nil, List.take_append_drop]
    · -- Between the prefix and the first surviving entry, at least the
      -- event in whose slot the marker stands.
      let kept := s.eventLog.logBase + 1 - s.logView.foldedLen
      refine ⟨_, (s.history.drop s.logView.foldedLen).take kept,
        s.history.drop (s.eventLog.logBase + 1), ?_, htake, hstream,
        .inr ⟨?_, marker, hmarker, hentries⟩⟩
      · have hsplit : s.logView.foldedLen + kept = s.eventLog.logBase + 1 := by
          show s.logView.foldedLen + (s.eventLog.logBase + 1 - s.logView.foldedLen) = _
          omega
        rw [hfile, List.append_assoc, ← hsplit, ← List.drop_drop, List.take_append_drop,
          List.take_append_drop]
      · have hcons : s.eventLog.entries.length =
            (s.history.drop (s.eventLog.logBase + 1)).length + 1 := by
          show s.logView.eventLog.entries.length = _
          rw [hentries]
          rfl
        intro hnil
        have hlength := congrArg List.length hnil
        rw [List.length_take, List.length_drop, List.length_nil] at hlength
        rw [List.length_drop] at hcons
        omega

end ManagedSession

namespace View

/-- A session whose file is open, or closed for the archive, has one. -/
theorem Created.file {v : View} {walIo : List WalWrite} (h : v.Created walIo) :
    v.ledger.OnFile → v.ledger.walPath.isSome := by
  obtain ⟨⟨L, -, -, -, -, hopen, hwalOpen, -, -, -, -, hpassive⟩, -, -⟩ := h
  have hframe := hpassive.frame
  rintro (hfile | harchived)
  · rw [hframe.2.2.2.2.2.2, ← hwalOpen, ← hframe.2.2.2.2.2.1]
    exact hfile
  · rw [hframe.2.2.2.2.1, hopen] at harchived
    cases harchived

theorem Recovered.file {v v' : View} (h : v.Recovered v') : v'.ledger.walPath.isSome := by
  obtain ⟨⟨path, kept, rs, -, -, limits, hledger⟩, -, -⟩ := h
  rw [hledger]
  rfl

end View

namespace Server

/-- The log of every session reached is a window of its transcript. -/
theorem framed {s : Server} (hs : machine.Reachable s) :
    ∀ session ∈ s.manager.session, session.logView.Framed := by
  refine reaches_session (P := fun session => session.logView.Framed) ?_ ?_ ?_ hs
  · rintro s a fresh job threadError could - ⟨id, label, cwd, provider, mode, walPath, disk, limits,
      info, -, -, rfl⟩
    exact (ManagedSession.grows_startJob job threadError could rfl).framed
      (LogWindow.shows_folded Notification.Marks [])
  · intro s a session m command _ _ _ hframed
    exact m.applyTo_framed a.fate command hframed
  · rintro session _ - ⟨path, kept, rs, limits, -, hrecover, rfl⟩
    have hevents : rs.durableEvents = ((session.disk.take kept).filterMap WalRecord.note?).length :=
      recoverRecords_durableEvents hrecover
    show Shows Notification.Marks rs.durableEvents rs.durableEvents [] _
    rw [hevents]
    exact LogWindow.shows_folded Notification.Marks _

/-- Without faults of the file, a session whose file is open replays
what is on disk. -/
theorem replays {s : Server} (hs : machine.Reaches Faultless s) :
    ∀ session ∈ s.manager.session, session.walOpen = true → session.Replays := by
  intro session hsession hopen
  have hview : s.viewOf session ∈ s.view := Option.mem_map_of_mem s.viewOf hsession
  obtain ⟨hkept, hfile⟩ := reaches_kept
    (P := fun v => v.ledger.OnFile → v.ledger.walPath.isSome) (fun _ _ h => h)
    (fun _ _ _ _ hcreated => hcreated.file)
    (by
      intro s a v h v' hsane hkept hfile _ _ hstep _ hon
      obtain ⟨ns, htells⟩ := hstep.tells (hkept.facing _).threads
      rw [htells.path]
      exact hfile (htells.closed hon))
    (fun _ _ _ _ hrecovered _ => hrecovered.file) hs _ hview
  exact ManagedSession.replays_of_framed (framed hs.reachable session hsession)
    (hkept.durable.notes (hfile (.inl hopen)))

/-- A server whose log in memory holds two entries. -/
def shortMemory : Server :=
  empty "s" .askEachTime { cap := 2, highWater := 100 } (some "/wal")

/-- Two prompts, which trim the log, an archive, a crash, and a life
behind it. -/
def archivedRun : List ServerAct :=
  attachedRun ++
    [.client (.prompt "a" []) .good, .client (.setArchived true) .good, .crash 20,
      .client (.setArchived false) .good, .spawned 0 sampleHandle .good,
      .client (.prompt "b" []) .good]

/-- Of eight events four are streamed; the marker stands for three more. -/
theorem replays_archivedRun :
    ((machine.run shortMemory archivedRun).bind fun s => s.manager.session.map fun session =>
        ((session.disk.filterMap WalRecord.note?).length, session.logView.foldedLen,
          session.eventLog.logBase, session.eventLog.entries.length)) = some (8, 4, 6, 2) ∧
      ∀ s ∈ machine.run shortMemory archivedRun, ∀ session ∈ s.manager.session,
        session.walOpen = true → session.Replays := by
  refine ⟨by decide, fun s hrun session hsession hopen => ?_⟩
  exact replays (.of_run (.start ⟨_, _, _, _, rfl⟩) (by decide) hrun) session hsession hopen

end Server

end Yaldabaoth
