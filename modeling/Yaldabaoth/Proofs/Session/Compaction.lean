import Yaldabaoth.Lib.Machine
import Yaldabaoth.Lib.LogWindow
import Yaldabaoth.Model.EventLog

/-!
# `Yaldabaoth.Proofs.Session.Compaction`: positions in a compacted log

An event log under any pushes and compactions, with whatever caps and
floors. `Compacting.Kept` says what holds of it: the log is a window of
what was pushed (`LogWindow.Shows`), each push got its own position, and
the marker in front tells the highest turn of all that was dropped.

From it: positions stay what they were when `push` returned them, and a
cursor resolves to a tail only where nothing at or behind it is gone
(`Compacting.resolve_cursor_tail`). There is one place where the marker
stands for an event that the cursor has not seen: its own.
-/

set_option autoImplicit false

namespace Yaldabaoth

open LogWindow (Shows)

/-- What the marker of a compaction says it stands for. -/
def Notification.throughTurn : Notification → Option Nat
  | .agent event =>
      match event.kind with
      | .compactedSummary throughTurn _ => some throughTurn
      | _ => none
  | _ => none

/-- An event log with a record of what was pushed, each with the position
that `push` returned, and of the markers put in, newest first. -/
structure Compacting where
  log : EventLog
  pushed : List (Nat × Notification)
  markers : List Notification
deriving DecidableEq

namespace Compacting

inductive Action where
  | push (note : Notification)
  | compact (sessionId : ServerSessionId) (generation cap floor : Nat)
deriving DecidableEq

def step (s : Compacting) : Action → Compacting
  | .push note =>
      let (log, seq) := s.log.push note
      { s with log, pushed := s.pushed ++ [(seq, note)] }
  | .compact sessionId generation cap floor =>
      match compactEventLog s.log sessionId generation cap floor with
      | (log, none) => { s with log }
      | (log, some _) => { s with log, markers := log.entries.take 1 ++ s.markers }

def machine : Machine Compacting Action where
  start s := s = ⟨EventLog.new, [], []⟩
  step s a := some (s.step a)

/-! ### One compaction -/

/-- How many entries a compaction drops. -/
def dropCount (log : EventLog) (cap floor : Nat) : Nat :=
  if log.entries.length ≤ cap then 0
  else min (log.entries.length - trimTarget cap)
    (min (floor - log.logBase) log.entries.length)

/-- The marker of a compaction. -/
def markerOf (log : EventLog) (sessionId : ServerSessionId) (generation cap floor : Nat) :
    Notification :=
  let dropped := dropCount log cap floor
  compactedSummary sessionId generation
    { dropped
      newBase := log.logBase + dropped
      throughTurn := ((log.entries.take dropped).filterMap noteTurn).max? }

/-- A compaction drops what `dropCount` says and puts its marker in the
last slot that came free, or changes nothing. -/
theorem compactEventLog_eq (log : EventLog) (sessionId : ServerSessionId)
    (generation cap floor : Nat) :
    compactEventLog log sessionId generation cap floor =
      if dropCount log cap floor = 0 then (log, none)
      else
        ({ entries := markerOf log sessionId generation cap floor ::
              log.entries.drop (dropCount log cap floor)
           logBase := log.logBase + dropCount log cap floor - 1 },
          some (dropCount log cap floor)) := by
  unfold compactEventLog EventLog.trim
  by_cases hcap : log.entries.length ≤ cap
  · simp [dropCount, hcap]
  · have hcount : dropCount log cap floor = min (log.entries.length - trimTarget cap)
        (min (floor - log.logBase) log.entries.length) := by
      simp [dropCount, hcap]
    simp only [hcap, if_false, ← hcount]
    by_cases hzero : dropCount log cap floor = 0
    · simp [hzero]
    · simp only [hzero, if_false]
      rfl

/-- A compaction stays below its floor. -/
theorem dropCount_floor (log : EventLog) (cap floor : Nat) :
    dropCount log cap floor = 0 ∨ log.logBase + dropCount log cap floor ≤ floor := by
  unfold dropCount
  split
  · exact .inl rfl
  · omega

theorem dropCount_le (log : EventLog) (cap floor : Nat) :
    dropCount log cap floor ≤ log.entries.length := by
  unfold dropCount
  split <;> omega

/-- Where no floor is in the way a compaction brings the log under its
cap, the marker included. -/
theorem length_le_cap (log : EventLog) (sessionId : ServerSessionId) (generation : Nat)
    {cap floor : Nat} (hcap : 2 ≤ cap) (hfloor : log.tipSeq ≤ floor) :
    (compactEventLog log sessionId generation cap floor).1.entries.length ≤ cap := by
  have hfloor : log.logBase + log.entries.length ≤ floor := hfloor
  have htarget : trimTarget cap + 1 ≤ cap := by
    unfold trimTarget
    omega
  rw [compactEventLog_eq]
  by_cases hcap : log.entries.length ≤ cap
  · simp [dropCount, hcap]
  · have hcount : dropCount log cap floor = log.entries.length - trimTarget cap := by
      simp only [dropCount, hcap, if_false]
      omega
    have hpos : dropCount log cap floor ≠ 0 := by omega
    rw [if_neg hpos]
    show (_ :: log.entries.drop (dropCount log cap floor)).length ≤ cap
    rw [List.length_cons, List.length_drop]
    omega

/-- What is at or behind the floor is where it was. -/
theorem kept_above_floor (log : EventLog) (sessionId : ServerSessionId) (generation cap : Nat)
    {floor i : Nat} {note : Notification} (hi : log.entries[i]? = some note)
    (hfloor : floor ≤ log.seqOf i) :
    ∃ j, (compactEventLog log sessionId generation cap floor).1.entries[j]? = some note ∧
      (compactEventLog log sessionId generation cap floor).1.seqOf j = log.seqOf i := by
  rw [compactEventLog_eq]
  by_cases hzero : dropCount log cap floor = 0
  · rw [if_pos hzero]
    exact ⟨i, hi, rfl⟩
  · rw [if_neg hzero]
    have hfloor : floor ≤ log.logBase + i := hfloor
    have hbelow := (dropCount_floor log cap floor).resolve_left hzero
    refine ⟨i - dropCount log cap floor + 1, ?_, ?_⟩
    · show (_ :: log.entries.drop (dropCount log cap floor))[_]? = some note
      rw [List.getElem?_cons_succ, List.getElem?_drop, ← hi]
      congr 1
      omega
    · show log.logBase + dropCount log cap floor - 1 + (i - dropCount log cap floor + 1)
        = log.logBase + i
      omega

/-! ### The invariant -/

/-- What every run of pushes and compactions keeps. -/
structure Kept (s : Compacting) : Prop where
  numbered : s.pushed.map Prod.fst = List.range s.pushed.length
  window : Shows (· ∈ s.markers) 0 s.log.logBase s.log.entries (s.pushed.map Prod.snd)
  front : s.markers = [] → s.log.logBase = 0 ∧ s.log.entries = s.pushed.map Prod.snd
  marked : ∀ marker ∈ s.markers.head?, s.log.entries.head? = some marker
  told : ∀ marker ∈ s.markers, ∃ turn,
    marker.throughTurn = some turn ∧ noteTurn marker = some turn
  rising : s.markers.Pairwise fun newer older =>
    older.throughTurn.getD 0 ≤ newer.throughTurn.getD 0

theorem kept_new : Kept ⟨EventLog.new, [], []⟩ where
  numbered := rfl
  window := LogWindow.shows_folded _ []
  front _ := ⟨rfl, rfl⟩
  marked := nofun
  told := nofun
  rising := .nil

theorem Kept.tip {s : Compacting} (h : s.Kept) : s.log.tipSeq = s.pushed.length := by
  have htip := h.window.tip
  rw [List.length_map] at htip
  exact htip

theorem Kept.push {s : Compacting} (h : s.Kept) (note : Notification) :
    (s.step (.push note)).Kept where
  numbered := by
    show (s.pushed ++ [(s.log.tipSeq, note)]).map Prod.fst = List.range (s.pushed ++ [_]).length
    rw [List.map_append, h.numbered, h.tip, List.length_append]
    exact List.range_succ.symm
  window := by
    show Shows _ 0 s.log.logBase (s.log.entries ++ [note]) ((s.pushed ++ [_]).map Prod.snd)
    rw [List.map_append]
    exact h.window.push note
  front hnone := by
    obtain ⟨hbase, hentries⟩ := h.front hnone
    refine ⟨hbase, ?_⟩
    show s.log.entries ++ [note] = (s.pushed ++ [_]).map Prod.snd
    rw [List.map_append, hentries]
    rfl
  marked marker hmarker := by
    show (s.log.entries ++ [note]).head? = some marker
    rw [List.head?_append, h.marked marker hmarker]
    rfl
  told := h.told
  rising := h.rising

theorem throughTurn_markerOf (log : EventLog) (sessionId : ServerSessionId)
    (generation cap floor : Nat) :
    (markerOf log sessionId generation cap floor).throughTurn =
        some (((log.entries.take (dropCount log cap floor)).filterMap noteTurn).max?.getD 0) ∧
      noteTurn (markerOf log sessionId generation cap floor) =
        some (((log.entries.take (dropCount log cap floor)).filterMap noteTurn).max?.getD 0) :=
  ⟨rfl, rfl⟩

/-- A marker tells at least of what the marker before it told of: that
one is among what was dropped. -/
theorem Kept.turn_le {s : Compacting} (h : s.Kept) (sessionId : ServerSessionId)
    (generation cap floor : Nat) (hpos : dropCount s.log cap floor ≠ 0) {marker : Notification}
    (hmarker : marker ∈ s.markers.head?) :
    marker.throughTurn.getD 0 ≤
      (markerOf s.log sessionId generation cap floor).throughTurn.getD 0 := by
  obtain ⟨turn, hthrough, hturn⟩ := h.told marker (List.mem_of_mem_head? hmarker)
  have hmem : marker ∈ s.log.entries.take (dropCount s.log cap floor) := by
    obtain ⟨n, hn⟩ := Nat.exists_eq_succ_of_ne_zero hpos
    have hhead := h.marked marker hmarker
    cases hentries : s.log.entries with
    | nil => rw [hentries] at hhead; cases hhead
    | cons first rest =>
        rw [hentries] at hhead
        cases hhead
        rw [hn]
        exact List.mem_cons_self
  have hin : turn ∈ (s.log.entries.take (dropCount s.log cap floor)).filterMap noteTurn :=
    List.mem_filterMap.2 ⟨marker, hmem, hturn⟩
  rw [(throughTurn_markerOf s.log sessionId generation cap floor).1, hthrough]
  cases hmax : ((s.log.entries.take (dropCount s.log cap floor)).filterMap noteTurn).max? with
  | none =>
      rw [List.max?_eq_none_iff] at hmax
      rw [hmax] at hin
      cases hin
  | some highest => exact List.le_max?_getD_of_mem hin |> fun hle => by rw [hmax] at hle; exact hle

theorem Kept.compact {s : Compacting} (h : s.Kept) (sessionId : ServerSessionId)
    (generation cap floor : Nat) : (s.step (.compact sessionId generation cap floor)).Kept := by
  show Kept (match compactEventLog s.log sessionId generation cap floor with
    | (log, none) => { s with log }
    | (log, some _) => { s with log, markers := log.entries.take 1 ++ s.markers })
  rw [compactEventLog_eq]
  by_cases hzero : dropCount s.log cap floor = 0
  · rw [if_pos hzero]
    exact h
  · rw [if_neg hzero]
    have hpos := Nat.pos_of_ne_zero hzero
    obtain ⟨hthrough, hturn⟩ := throughTurn_markerOf s.log sessionId generation cap floor
    refine ⟨h.numbered, ?_, nofun, ?_, ?_, ?_⟩
    · have hwindow := h.window.mono fun marker hmarker =>
        List.mem_cons_of_mem (markerOf s.log sessionId generation cap floor) hmarker
      exact hwindow.trim hpos (dropCount_le s.log cap floor) List.mem_cons_self
    · intro marker hmarker
      exact hmarker
    · intro marker hmarker
      rcases List.mem_cons.1 hmarker with rfl | hmarker
      · exact ⟨_, hthrough, hturn⟩
      · exact h.told marker hmarker
    · refine List.pairwise_cons.2 ⟨fun older holder => ?_, h.rising⟩
      have holder : older ∈ s.markers := holder
      -- What an older marker tells of, the last one does.
      cases hmarkers : s.markers with
      | nil => rw [hmarkers] at holder; cases holder
      | cons last rest =>
          have hlast : last ∈ s.markers.head? := by rw [hmarkers]; rfl
          have hnew := h.turn_le sessionId generation cap floor hzero hlast
          rw [hmarkers] at holder
          rcases List.mem_cons.1 holder with rfl | holder
          · exact hnew
          · have hrising := h.rising
            rw [hmarkers] at hrising
            exact Nat.le_trans (List.rel_of_pairwise_cons hrising holder) hnew

theorem kept_of_reachable {s : Compacting} (h : machine.Reachable s) : s.Kept := by
  refine h.invariant ?_ ?_
  · rintro s rfl
    exact kept_new
  · intro s a s' hkept _ hstep
    obtain rfl := Option.some.inj hstep
    cases a with
    | push note => exact hkept.push note
    | compact sessionId generation cap floor => exact hkept.compact sessionId generation cap floor

/-! ### Positions -/

/-- An entry behind the first was pushed, and `push` returned the
position that it has. -/
theorem Kept.pushed_at {s : Compacting} (h : s.Kept) {i : Nat} {note : Notification}
    (hi : s.log.entries[i]? = some note) :
    (s.log.seqOf i, note) ∈ s.pushed ∨ i = 0 ∧ s.markers.head? = some note := by
  have hget : ∀ k, (s.pushed.map Prod.snd)[k]? = some note → (k, note) ∈ s.pushed := by
    intro k hk
    rw [List.getElem?_map] at hk
    obtain ⟨⟨seq, note'⟩, hpair, rfl⟩ := Option.map_eq_some_iff.1 hk
    have hseq : (s.pushed.map Prod.fst)[k]? = some seq := by
      rw [List.getElem?_map, hpair]
      rfl
    rw [h.numbered] at hseq
    obtain ⟨hk, rfl⟩ := List.getElem?_eq_some_iff.1 hseq
    rw [List.getElem_range]
    exact List.mem_of_getElem? (i := k) (by rw [hpair]; simp)
  rcases h.window.get hi with hat | ⟨rfl, hmarker⟩
  · exact .inl (hget _ hat)
  · right
    refine ⟨rfl, ?_⟩
    cases hmarkers : s.markers with
    | nil => rw [hmarkers] at hmarker; cases hmarker
    | cons last rest =>
        have hlast := h.marked last (by rw [hmarkers]; rfl)
        rw [List.head?_eq_getElem?, hi] at hlast
        rw [List.head?_cons, hlast]

/-- What a log promises of its positions. -/
structure Stable (s : Compacting) : Prop where
  /-- What is resident is where `push` said, or it is the last marker. -/
  placed : ∀ i note, s.log.entries[i]? = some note →
    (s.log.seqOf i, note) ∈ s.pushed ∨ i = 0 ∧ s.markers.head? = some note
  tip : s.log.tipSeq = s.pushed.length
  /-- Unless somebody pushed one, a marker is in front only. -/
  single : (∀ p ∈ s.pushed, p.2.throughTurn = none) →
    ∀ i note, s.log.entries[i]? = some note → note.throughTurn.isSome → i = 0
  rising : s.markers.Pairwise fun newer older =>
    ∃ turn turn', older.throughTurn = some turn ∧ newer.throughTurn = some turn' ∧ turn ≤ turn'
  floored : ∀ sessionId generation cap floor i note, s.log.entries[i]? = some note →
    floor ≤ s.log.seqOf i →
      ∃ j, (compactEventLog s.log sessionId generation cap floor).1.entries[j]? = some note ∧
        (compactEventLog s.log sessionId generation cap floor).1.seqOf j = s.log.seqOf i
  capped : ∀ sessionId generation cap floor, 2 ≤ cap → s.log.tipSeq ≤ floor →
    (compactEventLog s.log sessionId generation cap floor).1.entries.length ≤ cap

theorem positions_stable {s : Compacting} (h : machine.Reachable s) : s.Stable := by
  have hkept := kept_of_reachable h
  refine {
    placed := fun i note hi => hkept.pushed_at hi
    tip := hkept.tip
    single := ?_
    rising := ?_
    floored := ?_
    capped := ?_ }
  · intro hplain i note hi hmarker
    rcases hkept.pushed_at hi with hpushed | ⟨rfl, -⟩
    · rw [hplain _ hpushed] at hmarker
      cases hmarker
    · rfl
  · refine hkept.rising.imp_of_mem fun {newer older} hnewer holder hle => ?_
    obtain ⟨turn, hturn, -⟩ := hkept.told older holder
    obtain ⟨turn', hturn', -⟩ := hkept.told newer hnewer
    rw [hturn, hturn'] at hle
    exact ⟨turn, turn', hturn, hturn', hle⟩
  · intro sessionId generation cap floor i note hi hfloor
    exact kept_above_floor s.log sessionId generation cap hi hfloor
  · intro sessionId generation cap floor hcap hfloor
    exact length_le_cap s.log sessionId generation hcap hfloor

/-- Six events under a cap of four, one more, and a compaction that a
floor cuts short. -/
def busy : List Action :=
  [.push (.turnEnded "s" 1 0), .push (.turnEnded "s" 2 0), .push (.turnEnded "s" 3 0),
    .push (.turnEnded "s" 4 0), .push (.turnEnded "s" 5 0), .compact "s" 0 4 100,
    .push (.turnEnded "s" 6 0), .push (.turnEnded "s" 7 0), .compact "s" 0 2 4]

theorem positions_stable_sample :
    ∃ s, machine.run ⟨EventLog.new, [], []⟩ busy = some s ∧ s.Stable ∧
      s.log.logBase = 3 ∧ s.log.tipSeq = 7 ∧ s.markers.length = 2 := by
  have hrun : (machine.run ⟨EventLog.new, [], []⟩ busy).map
      (fun s => (s.log.logBase, s.log.tipSeq, s.markers.length)) = some (3, 7, 2) := by
    decide
  obtain ⟨s, hs, hdata⟩ := Option.map_eq_some_iff.1 hrun
  obtain ⟨hbase, hrest⟩ := Prod.mk.inj hdata
  obtain ⟨htip, hmarkers⟩ := Prod.mk.inj hrest
  exact ⟨s, hs, positions_stable (Machine.reachable_of_run rfl hs), hbase, htip, hmarkers⟩

/-! ### Cursors -/

/-- The events that were pushed at `acked` or behind. -/
def eventsFrom (s : Compacting) (acked : Nat) : List Notification :=
  (s.pushed.filter fun p => decide (acked ≤ p.1)).map Prod.snd

/-- The event of this position was dropped; its slot may be the marker's. -/
def Gone (s : Compacting) (seq : Nat) : Prop :=
  seq < s.log.logBase ∨ seq = s.log.logBase ∧ s.markers ≠ []

theorem Kept.eventsFrom_eq {s : Compacting} (h : s.Kept) (acked : Nat) :
    s.eventsFrom acked = (s.pushed.map Prod.snd).drop acked := by
  have key : ∀ (pushed : List (Nat × Notification)) (start : Nat),
      pushed.map Prod.fst = List.range' start pushed.length →
        (pushed.filter fun p => decide (acked ≤ p.1)).map Prod.snd
          = (pushed.map Prod.snd).drop (acked - start) := by
    intro pushed
    induction pushed with
    | nil => intro start _; simp
    | cons p pushed ih =>
        intro start hnumbers
        rw [List.length_cons, List.range'_succ, List.map_cons] at hnumbers
        obtain ⟨hfirst, hrest⟩ := List.cons.inj hnumbers
        have htail := ih (start + 1) hrest
        by_cases hle : acked ≤ p.1
        · have hall : acked - start = 0 := by omega
          have hall' : acked - (start + 1) = 0 := by omega
          rw [hall'] at htail
          rw [hall, List.filter_cons_of_pos (by simpa using hle), List.map_cons, htail]
          rfl
        · have hmore : acked - start = acked - (start + 1) + 1 := by omega
          rw [hmore, List.filter_cons_of_neg (by simpa using hle), htail]
          rfl
  have hnumbered := h.numbered
  rw [List.range_eq_range'] at hnumbered
  exact key s.pushed 0 hnumbered

/-- A cursor that is answered with a tail gets exactly what was pushed at
and behind its position, as long as that position is not the marker's.
There the marker comes in place of one event. -/
theorem resolve_cursor_tail {s : Compacting} (h : machine.Reachable s) (generation acked : Nat) :
    (∀ i, s.log.resolveCursor (some (generation, acked)) generation = .tail i →
      (¬ s.Gone acked → s.log.tailFrom i = s.eventsFrom acked) ∧
      (s.Gone acked → i = 0 ∧ ∃ marker, s.markers.head? = some marker ∧
        s.log.tailFrom i = marker :: s.eventsFrom (acked + 1))) ∧
    (∀ seq, acked < seq → s.Gone seq →
      s.log.resolveCursor (some (generation, acked)) generation = .fromBase) := by
  have hkept := kept_of_reachable h
  have hresolve : s.log.resolveCursor (some (generation, acked)) generation =
      if acked < s.log.logBase ∨ s.log.tipSeq < acked then .fromBase
      else .tail (acked - s.log.logBase) := by
    show (if generation ≠ generation then _ else _) = _
    rw [if_neg (fun hne => hne rfl)]
  constructor
  · intro i hi
    rw [hresolve] at hi
    split at hi
    · cases hi
    · rename_i hinside
      cases hi
      have hbase : s.log.logBase ≤ acked := by omega
      constructor
      · intro hthere
        rw [hkept.eventsFrom_eq]
        by_cases hzero : acked = s.log.logBase
        · -- Nothing was ever dropped.
          have hnone : s.markers = [] := by
            by_contra hsome
            exact hthere (.inr ⟨hzero, hsome⟩)
          obtain ⟨hbase, hentries⟩ := hkept.front hnone
          rw [hzero, hbase, ← hentries]
          rfl
        · show s.log.entries.drop (acked - s.log.logBase) = _
          rw [hkept.window.drop (by omega)]
          congr 1
          omega
      · intro hgone
        have hat : acked = s.log.logBase := by
          rcases hgone with hlt | ⟨hat, -⟩ <;> omega
        have hsome : s.markers ≠ [] := by
          rcases hgone with hlt | ⟨-, hsome⟩
          · omega
          · exact hsome
        obtain ⟨marker, rest, hmarkers⟩ := List.exists_cons_of_ne_nil hsome
        have hfront := hkept.marked marker (by rw [hmarkers]; rfl)
        refine ⟨by omega, marker, by rw [hmarkers]; rfl, ?_⟩
        rw [hkept.eventsFrom_eq, hat, Nat.sub_self]
        show s.log.entries = marker :: _
        rw [← hkept.window.drop (Nat.zero_lt_one)]
        cases hentries : s.log.entries with
        | nil => rw [hentries] at hfront; cases hfront
        | cons first rest =>
            rw [hentries] at hfront
            cases hfront
            rfl
  · intro seq hlt hgone
    rw [hresolve, if_pos]
    left
    rcases hgone with hbelow | ⟨hat, -⟩ <;> omega

theorem resolve_cursor_tail_sample :
    ∃ s, machine.run ⟨EventLog.new, [], []⟩ busy = some s ∧
      s.log.resolveCursor (some (0, 5)) 0 = .tail 2 ∧ s.log.tailFrom 2 = s.eventsFrom 5 := by
  have hrun : (machine.run ⟨EventLog.new, [], []⟩ busy).map
      (fun s => (s.log.resolveCursor (some (0, 5)) 0, s.log.logBase)) = some (.tail 2, 3) := by
    decide
  obtain ⟨s, hs, hdata⟩ := Option.map_eq_some_iff.1 hrun
  obtain ⟨hresolve, hbase⟩ := Prod.mk.inj hdata
  have htail := (resolve_cursor_tail (Machine.reachable_of_run rfl hs) 0 5).1 2 hresolve
  refine ⟨s, hs, hresolve, htail.1 ?_⟩
  rintro (hlt | ⟨hat, -⟩) <;> omega

/-- Three events under a cap of two: the first two are dropped and the
marker takes the second one's slot. A cursor there has not seen that
event and is still answered with a tail. -/
theorem marker_slot_answers_tail :
    ¬ ∀ s, machine.Reachable s → ∀ generation acked i,
      s.log.resolveCursor (some (generation, acked)) generation = .tail i →
        s.log.tailFrom i = s.eventsFrom acked := by
  intro h
  have hrun : (machine.run ⟨EventLog.new, [], []⟩
      [.push (.turnEnded "s" 1 0), .push (.turnEnded "s" 2 0), .push (.turnEnded "s" 3 0),
        .compact "s" 0 2 100]).map (fun s =>
        (s.log.resolveCursor (some (0, 1)) 0, decide (s.log.tailFrom 0 = s.eventsFrom 1)))
      = some (.tail 0, false) := by
    decide
  obtain ⟨s, hs, hdata⟩ := Option.map_eq_some_iff.1 hrun
  obtain ⟨hresolve, hdiffer⟩ := Prod.mk.inj hdata
  exact of_decide_eq_false hdiffer (h s (Machine.reachable_of_run rfl hs) 0 1 0 hresolve)

end Compacting

end Yaldabaoth
