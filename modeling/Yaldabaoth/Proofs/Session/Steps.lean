import Yaldabaoth.Proofs.Session.View

/-!
# `Yaldabaoth.Proofs.Session.Steps`: the server as seen from the session

A step of the server leaves the session it had, changed by one command,
or one that was just created, or one recovered from the records left on
disk (`session_cases`). `reaches_session` is the induction rule for the
properties of a session that need more of it than its ledger.
-/

set_option autoImplicit false

namespace Yaldabaoth

/-- A session as `doCreate` builds it, before its spawn thread is
started. -/
def ManagedSession.Fresh (s : ManagedSession) (walIo : List WalWrite) : Prop :=
  ∃ id label cwd provider mode walPath disk limits info,
    disk.filterMap WalRecord.note? = [] ∧ disk.filterMap WalRecord.promptId? = [] ∧
    s = ({ newManagedSession id label cwd provider mode walPath disk limits with walIo }
      ).emit (.sessionCreated info)

/-- A session as `restore_seed_from_dir` builds it from a prefix of the
records of another. -/
def ManagedSession.RecoveredFrom (s old : ManagedSession) : Prop :=
  ∃ path kept rs limits, old.walPath = some path ∧
    recoverRecords path (old.disk.take kept) = .ok (some rs) ∧
    s = restoreSeed rs (old.disk.take kept) ((old.disk.take kept).filterMap WalRecord.note?) limits

namespace Server

variable {s s' : Server} {a : ServerAct}

/-- Where the session of a server comes from that applied a command. -/
theorem session_of_apply {command : Command} {fate : Fate} {session' : ManagedSession}
    (h : session' ∈ (s.apply command fate).1.manager.session) :
    ∃ session ∈ s.manager.session, ∃ m : Manager,
      session' ∈ (m.applyTo { session with walIo := fate.walIo } fate command).1.session := by
  cases hsession : s.manager.session with
  | none =>
      rw [s.apply_missing hsession] at h
      cases h
  | some session =>
      rw [apply_eq hsession] at h
      exact ⟨session, rfl, s.manager, h⟩

theorem session_cases (hs : s.step a = some s') :
    ∀ session' ∈ s'.manager.session,
      (∃ fresh : ManagedSession, fresh.Fresh a.fate.walIo ∧ ∃ job threadError could,
        session' = (fresh.startJob job threadError could).1) ∨
      (∃ session ∈ s.manager.session, ∃ (m : Manager) (command : Command),
        session' ∈ (m.applyTo { session with walIo := a.fate.walIo } a.fate command).1.session) ∨
      ∃ session ∈ s.manager.session, session'.RecoveredFrom session := by
  intro session' hsession'
  cases a with
  | create cwd label provider resumeSessionId fate =>
      left
      simp only [step, Option.ite_none_right_eq_some] at hs
      obtain ⟨-, hs⟩ := hs
      cases hs
      refine ⟨_, ⟨_, _, _, _, _, _, _, _, _, ?_, ?_, rfl⟩, _, _, _, (Option.some.inj hsession').symm⟩
      · cases s.manager.openSessionWal s.id label cwd provider fate <;> rfl
      · cases s.manager.openSessionWal s.id label cwd provider fate <;> rfl
  | client command fate =>
      simp only [step, Option.ite_none_right_eq_some] at hs
      obtain ⟨-, hs⟩ := hs
      cases hs
      obtain ⟨session, hsession, m, hmem⟩ := session_of_apply hsession'
      exact .inr (.inl ⟨session, hsession, m, command, hmem⟩)
  | spawned index handle fate =>
      simp only [step] at hs
      split at hs
      · cases hs
      · rename_i job hjob
        cases hs
        rw [withPump_manager] at hsession'
        obtain ⟨session, hsession, m, hmem⟩ := session_of_apply hsession'
        exact .inr (.inl ⟨session, hsession, m, _, hmem⟩)
  | spawnFailed index reason fate =>
      simp only [step] at hs
      split at hs
      · cases hs
      · cases hs
        obtain ⟨session, hsession, m, hmem⟩ := session_of_apply hsession'
        exact .inr (.inl ⟨session, hsession, m, _, hmem⟩)
  | pump index send fate =>
      simp only [step] at hs
      split at hs
      · cases hs
      · split at hs
        · cases hs
          obtain ⟨session, hsession, m, hmem⟩ := session_of_apply hsession'
          exact .inr (.inl ⟨session, hsession, m, _, hmem⟩)
        · cases hs
  | crash kept =>
      right; right
      cases hsession : s.manager.session with
      | none =>
          simp only [step, restart, hsession, Option.bind_none] at hs
          cases hs
          cases hsession'
      | some session =>
          simp only [step, restart, hsession, Option.bind_some] at hs
          cases hpath : session.walPath with
          | none =>
              simp only [hpath, Option.map_none] at hs
              cases hs
              cases hsession'
          | some path =>
              simp only [hpath, Option.map_some] at hs
              cases hrecover : recoverRecords path (session.disk.take kept) with
              | error e => simp [hrecover] at hs
              | ok recovered =>
                  simp only [hrecover] at hs
                  cases hs
                  obtain ⟨rs, rfl, rfl⟩ := Option.map_eq_some_iff.1 hsession'
                  exact ⟨session, rfl, path, kept, rs, s.manager.limits, hpath, hrecover, rfl⟩

/-- The induction over runs for properties of the session: what a new
one has, and every command and every recovery keeps. -/
theorem reaches_session {allowed : Server → ServerAct → Prop} {P : ManagedSession → Prop}
    (hcreate : ∀ s a (fresh : ManagedSession) job threadError could, allowed s a →
      fresh.Fresh a.fate.walIo → P (fresh.startJob job threadError could).1)
    (hcommand : ∀ s a session (m : Manager) command, machine.Reaches allowed s →
      session ∈ s.manager.session → allowed s a → P session →
      ∀ session' ∈ (m.applyTo { session with walIo := a.fate.walIo } a.fate command).1.session,
        P session')
    (hcrash : ∀ session session' : ManagedSession, P session → session'.RecoveredFrom session →
      P session')
    (hs : machine.Reaches allowed s) : ∀ session ∈ s.manager.session, P session := by
  refine Machine.Reaches.relative (P := fun s => ∀ session ∈ s.manager.session, P session)
    (Q := fun s => machine.Reaches allowed s) (fun _ h => h) ?_ ?_ hs
  · rintro _ ⟨id, mode, limits, walDir, rfl⟩ session hsession
    cases hsession
  · intro s a s' hreach ih hallowed hstep session' hsession'
    rcases session_cases hstep session' hsession' with ⟨fresh, hfresh, job, threadError, could, rfl⟩ |
      ⟨session, hsession, m, command, hmem⟩ | ⟨session, hsession, hrecovered⟩
    · exact hcreate s a fresh job threadError could hallowed hfresh
    · exact hcommand s a session m command hreach hsession hallowed (ih session hsession) session' hmem
    · exact hcrash session session' (ih session hsession) hrecovered

end Server

end Yaldabaoth
