import Yaldabaoth.Model.WakeReader

/-!
# `Yaldabaoth.Proofs.Cog.Wakes`: where the wake stream resumes

`open_wakes` is given the loop's variable, and the variable is set in
three ways: from the task's result, from the cursor file, or not at all.
`Kept` is what holds in between. The file always holds the wake that was
persisted last, and the task's cursor is that wake once it has persisted
one.

Before that, the task's cursor is the one of its fresh `WakeStream`, which
is none. A connection that ends before its first wake hands this none to
the loop, and the next connection does not resume. `Silent` says which
streams do so, in terms of their lines.
-/

set_option autoImplicit false

namespace Yaldabaoth

/-! ### The cursor file -/

theorem parseU64_toDigits (cursor : UInt64) :
    parseU64 (Nat.toDigits 10 cursor.toNat) = some cursor := by
  have hdigits : (Nat.toDigits 10 cursor.toNat).all Char.isDigit = true := by
    rw [List.all_eq_true]
    intro ch hch
    exact Nat.isDigit_of_mem_toDigits (by decide) (by decide) hch
  have hhead : (Nat.toDigits 10 cursor.toNat).head? ≠ some '+' := by
    intro hplus
    have hdigit := List.all_eq_true.1 hdigits '+' (List.mem_of_mem_head? hplus)
    exact absurd hdigit (by decide)
  have hvalue : Nat.ofDigitChars 10 (Nat.toDigits 10 cursor.toNat) 0 = cursor.toNat :=
    Nat.ofDigitChars_ten_toDigits
  rw [parseU64]
  simp only [if_neg hhead, hvalue, hdigits]
  rw [if_pos ⟨Nat.toDigits_ne_nil, trivial, cursor.toNat_lt⟩, UInt64.ofNat_toNat]

/-- What was persisted is read back. -/
theorem readWakeCursor_cursorText (cursor : Option UInt64) :
    readWakeCursor (cursor.map cursorText) = .ok cursor := by
  cases cursor with
  | none => rfl
  | some cursor =>
      have hlast : (cursorText cursor).getLast? = some '\n' := by simp [cursorText]
      have hstripped : (cursorText cursor).dropLast = Nat.toDigits 10 cursor.toNat := by
        simp [cursorText]
      have htrimmed : ((cursorText cursor).rdropWhile fun ch => ch = '\n')
          = Nat.toDigits 10 cursor.toNat := by
        rw [cursorText, List.rdropWhile_concat_pos _ _ _ (by decide), List.rdropWhile_eq_self_iff]
        intro hne
        have hdigit : ((Nat.toDigits 10 cursor.toNat).getLast hne).isDigit = true :=
          Nat.isDigit_of_mem_toDigits (by decide) (by decide) (List.getLast_mem hne)
        intro heq
        rw [of_decide_eq_true heq] at hdigit
        exact absurd hdigit (by decide)
      rw [Option.map_some, readWakeCursor]
      simp only [if_pos hlast, hstripped, parseU64_toDigits, htrimmed]
      simp

/-! ### Streams without a wake -/

/-- A field that adds nothing to a frame. -/
def WakeFrame.IdleField (line : List Char) : Prop :=
  (splitField line).1 = ['r', 'e', 't', 'r', 'y'] ∨ splitField line = (['d', 'a', 't', 'a'], [])

namespace WakeStream

/-- A line that brings no wake nearer: blank, a comment, a reconnection
delay, or data without text. -/
def Idle (read : List Char) : Prop :=
  let line := read.rdropWhile fun ch => ch = '\r' ∨ ch = '\n'
  line = [] ∨ line.head? = some ':' ∨ WakeFrame.IdleField line

/-- A stream that ends before any wake. -/
def Silent (stream : WakeStream) : Prop :=
  stream.broken = none ∧ ∀ read ∈ stream.reader, Idle read

end WakeStream

section stream

variable (json : WakeJson) {frame frame' : WakeFrame} {line : List Char}

namespace WakeFrame

variable {json} in
/-- A frame stays a control frame for as long as its fields are idle. -/
theorem readField_isControl (h : frame.readField json line = .ok frame') :
    frame'.sawField = true ∧ (frame'.isControl = true ↔ frame.isControl = true ∧ IdleField line) := by
  rw [readField] at h
  rw [IdleField]
  rcases hsplit : splitField line with ⟨field, value⟩
  simp only [hsplit] at h
  split at h
  case isTrue hevent =>
    cases h
    simp [isControl, hevent]
  case isFalse =>
    split at h
    case isTrue hid =>
      cases hdecoded : json.decodeId value with
      | error e => rw [hdecoded] at h; cases h
      | ok id =>
          rw [hdecoded] at h
          cases h
          simp [isControl, hid]
    case isFalse =>
      split at h
      case isTrue hdata =>
        cases h
        -- data that follows data is set off by a line break, and so never empty
        by_cases hempty : frame.data = [] <;> simp [isControl, hdata, hempty]
      case isFalse =>
        split at h
        case isTrue hretry =>
          cases h
          simp [isControl, hretry]
        case isFalse => cases h

theorem readField_of_idle (frame : WakeFrame) (h : IdleField line) :
    ∃ frame', frame.readField json line = .ok frame' := by
  rcases h with hretry | hdata
  · rw [readField]
    rcases hsplit : splitField line with ⟨field, value⟩
    rw [hsplit] at hretry
    simp [show field = ['r', 'e', 't', 'r', 'y'] from hretry]
  · rw [readField, hdata]
    simp

end WakeFrame

namespace WakeStream

/-- Reading comes to a clean end without a wake exactly when the frame at
hand is a control frame and every line left is idle. -/
theorem readWake_eq_none_iff (broken : Option String) (frame : WakeFrame)
    (lines : List (List Char)) (hsaw : frame.isControl = false → frame.sawField = true) :
    readWake json broken frame lines = .ok none ↔
      frame.isControl = true ∧ broken = none ∧ ∀ read ∈ lines, Idle read := by
  -- a frame that is no control frame is delivered, and no delivery is an end
  have hdelivers : ∀ (frame : WakeFrame) (rest : List (List Char)),
      ((frame.deliver json).map fun id => some (id, rest)) ≠ .ok none := by
    intro frame rest h
    cases hdeliver : frame.deliver json with
    | error e => rw [hdeliver] at h; cases h
    | ok id => rw [hdeliver] at h; cases h
  induction lines generalizing frame with
  | nil =>
      cases broken with
      | some e => simp [readWake]
      | none =>
          cases hcontrol : frame.isControl with
          | true => simp [readWake, hcontrol]
          | false => simp [readWake, hcontrol, hsaw hcontrol, hdelivers]
  | cons read rest ih =>
      have hidle : Idle read ↔ (read.rdropWhile fun ch => ch = '\r' ∨ ch = '\n') = [] ∨
          (read.rdropWhile fun ch => ch = '\r' ∨ ch = '\n').head? = some ':' ∨
          WakeFrame.IdleField (read.rdropWhile fun ch => ch = '\r' ∨ ch = '\n') := Iff.rfl
      rw [readWake, List.forall_mem_cons, hidle]
      generalize read.rdropWhile (fun ch => ch = '\r' ∨ ch = '\n') = line
      by_cases hblank : line = []
      · rw [if_pos hblank]
        cases hcontrol : frame.isControl with
        | false => simp [hsaw hcontrol, hdelivers]
        | true =>
            by_cases hseen : frame.sawField = true
            · rw [if_pos hseen, if_pos rfl]
              refine (ih {} (by decide)).trans ?_
              simp [hblank, WakeFrame.isControl]
            · rw [if_neg hseen]
              refine (ih frame hsaw).trans ?_
              simp [hblank, hcontrol]
      · rw [if_neg hblank]
        by_cases hcomment : line.head? = some ':'
        · rw [if_pos hcomment]
          refine (ih frame hsaw).trans ?_
          simp [hcomment]
        · rw [if_neg hcomment]
          cases hfield : frame.readField json line with
          | error e =>
              have hbusy : ¬ WakeFrame.IdleField line := by
                intro hidle
                obtain ⟨frame', hok⟩ := WakeFrame.readField_of_idle json frame hidle
                rw [hfield] at hok
                cases hok
              simp [hblank, hcomment, hbusy]
          | ok frame' =>
              obtain ⟨hseen, hcontrol⟩ := WakeFrame.readField_isControl hfield
              refine (ih frame' fun _ => hseen).trans ?_
              rw [hcontrol]
              simp only [hblank, hcomment, false_or]
              tauto

/-- `next_wake` of a fresh stream finds its end exactly when the stream is
silent. -/
theorem nextWake_eq_none_iff (stream : WakeStream) :
    stream.nextWake json = .ok none ↔ stream.Silent := by
  have hread : readWake json stream.broken {} stream.reader = .ok none ↔ stream.Silent := by
    refine (readWake_eq_none_iff json stream.broken {} stream.reader (by decide)).trans ?_
    exact and_iff_right rfl
  rw [← hread, nextWake]
  cases readWake json stream.broken {} stream.reader with
  | error e => simp [Except.map]
  | ok wake => cases wake <;> simp [Except.map]

end WakeStream

end stream

/-! ### The reader -/

namespace WakeReader

variable {json : WakeJson} {reader reader' : WakeReader} {stream : WakeStream}
  {cursor : Option UInt64} {write : CursorWrite} {heard readable : Bool} {a : Action}

/-- What holds of the reader between its steps. -/
structure Kept (reader : WakeReader) : Prop where
  file : reader.file = reader.persisted.map cursorText
  waiting : reader.phase = .waiting → reader.lastEventId = reader.persisted
  reading : ∀ stream cursor, reader.phase = .reading stream cursor →
    cursor = none ∨ cursor = reader.persisted

/-- The step after which the loop's variable is not the persisted wake. A
connection ends cleanly before its first wake, although one was persisted
before, or the task panics behind a wake that it had persisted. -/
def Forgets (reader : WakeReader) : Action → Prop
  | .nextWake _ _ _ => ∃ stream, reader.phase = .reading stream none ∧ stream.Silent ∧
      reader.persisted ≠ none
  | .taskFailed => (∃ stream cursor, reader.phase = .reading stream cursor) ∧
      reader.lastEventId ≠ reader.persisted
  | _ => False

/-- A connection that is opened is resumed behind the wake persisted last. -/
def Resumes (reader : WakeReader) : Prop :=
  reader.phase = .waiting → reader.lastEventId = reader.persisted

theorem Kept.reread (h : reader.file = reader.persisted.map cursorText) (readable : Bool) :
    (reader.rereadCursor readable).Kept := by
  cases readable with
  | false => exact ⟨h, nofun, nofun⟩
  | true =>
      have hreread : reader.rereadCursor true
          = { reader with lastEventId := reader.persisted, phase := .waiting } := by
        rw [rereadCursor, if_pos rfl, h, readWakeCursor_cursorText, ← h]
      rw [hreread]
      exact ⟨h, fun _ => rfl, nofun⟩

theorem kept_spawned (cursor : Option UInt64) (readable : Bool) : (spawned cursor readable).Kept :=
  Kept.reread rfl readable

/-- The task's turn keeps it, unless the stream is silent and the task has
no cursor to hand back. -/
theorem Kept.nextWake (h : reader.Kept)
    (hends : stream.nextWake json = .ok none → cursor = reader.persisted) :
    (reader.nextWake json stream cursor write heard readable).Kept := by
  rw [WakeReader.nextWake]
  cases hnext : stream.nextWake json with
  | error e => exact .reread h.file readable
  | ok wake =>
      cases wake with
      | none => exact ⟨h.file, fun _ => hends hnext, nofun⟩
      | some wake =>
          obtain ⟨wakeId, stream'⟩ := wake
          cases write with
          | failed e => exact .reread h.file readable
          | unsynced e => exact .reread rfl readable
          | done =>
              cases heard with
              | false => exact ⟨rfl, fun _ => rfl, nofun⟩
              | true =>
                  refine ⟨rfl, nofun, fun _ _ hreading => ?_⟩
                  cases hreading
                  exact .inr rfl

theorem Kept.step (h : reader.Kept) (hkeeps : ¬ reader.Forgets a)
    (hs : (machine json).step reader a = some reader') : reader'.Kept := by
  cases a with
  | refused =>
      obtain ⟨-, hs⟩ := Option.ite_none_right_eq_some.1 hs
      cases hs
      exact h
  | opened lines broken =>
      obtain ⟨-, hs⟩ := Option.ite_none_right_eq_some.1 hs
      cases hs
      refine ⟨h.file, nofun, fun _ _ hreading => ?_⟩
      cases hreading
      exact .inl rfl
  | nextWake write heard readable =>
      cases hphase : reader.phase with
      | waiting => simp [machine, hphase] at hs
      | disabled => simp [machine, hphase] at hs
      | reading stream cursor =>
          simp only [machine, hphase, Option.some.injEq] at hs
          rw [← hs]
          refine h.nextWake fun hend => ?_
          rcases h.reading stream cursor hphase with hnone | hlast
          · -- a silent stream does no harm as long as there is nothing to forget
            rw [hnone]
            by_contra hpersisted
            refine hkeeps ⟨stream, by rw [hphase, hnone], ?_, Ne.symm hpersisted⟩
            exact (WakeStream.nextWake_eq_none_iff json stream).1 hend
          · exact hlast
  | taskFailed =>
      cases hphase : reader.phase with
      | waiting => simp [machine, hphase] at hs
      | disabled => simp [machine, hphase] at hs
      | reading stream cursor =>
          simp only [machine, hphase, Option.some.injEq] at hs
          rw [← hs]
          refine ⟨h.file, fun _ => ?_, nofun⟩
          by_contra hlost
          exact hkeeps ⟨⟨stream, cursor, hphase⟩, hlost⟩

/-- A step that forgets leaves the reader waiting with another cursor. -/
theorem spoils_of_forgets (h : reader.Forgets a) :
    ∃ reader', (machine json).step reader a = some reader' ∧ ¬ reader'.Resumes := by
  cases a with
  | refused => cases h
  | opened lines broken => cases h
  | nextWake write heard readable =>
      obtain ⟨stream, hphase, hsilent, hpersisted⟩ := h
      have hend := (WakeStream.nextWake_eq_none_iff json stream).2 hsilent
      refine ⟨{ reader with lastEventId := none, phase := .waiting }, ?_, fun hresumes => ?_⟩
      · simp [machine, hphase, WakeReader.nextWake, hend]
      · exact hpersisted (hresumes rfl).symm
  | taskFailed =>
      obtain ⟨⟨stream, cursor, hphase⟩, hlost⟩ := h
      refine ⟨{ reader with phase := .waiting }, ?_, fun hresumes => hlost (hresumes rfl)⟩
      simp [machine, hphase]

/-- Every connection of a run resumes behind the wake that was persisted
last exactly when no step of the run forgets it. -/
theorem wakes_resume_iff (json : WakeJson) (cursor : Option UInt64) (readable : Bool)
    (as : List Action) :
    (∀ front back reader, as = front ++ back →
        (machine json).run (spawned cursor readable) front = some reader → reader.Resumes) ↔
      (machine json).Obeys (fun reader a => ¬ reader.Forgets a) (spawned cursor readable) as :=
  Machine.run_good_iff_obeys (fun _ h => h.waiting) (fun _ _ _ h hkeeps hs => h.step hkeeps hs)
    (fun _ _ _ hforgets => spoils_of_forgets (not_not.1 hforgets)) as (kept_spawned cursor readable)

/-- A wake is persisted, the connection ends, and so does the next one,
before it brings a wake. -/
theorem silent_connection_forgets :
    ¬ ∀ (json : WakeJson) (as : List Action) (reader : WakeReader),
      (machine json).run (spawned none true) as = some reader → reader.Resumes := by
  intro h
  -- ids and data are decimal digits
  let json : WakeJson := ⟨fun text => .ok (.ofNat (Nat.ofDigitChars 10 text 0)),
    fun text => .ok (.ofNat (Nat.ofDigitChars 10 text 0))⟩
  let frame := ["event: delivery-ready\n", "id: 7\n", "data: 7\n", "\n"].map String.toList
  have hrun := h json [.opened frame none, .nextWake .done true true, .nextWake .done true true,
    .opened [] none, .nextWake .done true true]
  have hforgot : ((machine json).run (spawned none true) [.opened frame none,
      .nextWake .done true true, .nextWake .done true true, .opened [] none,
      .nextWake .done true true]).map (fun reader =>
        (reader.phase, reader.lastEventId, reader.persisted)) = some (.waiting, none, some 7) := by
    decide
  obtain ⟨reader, hreader, hfields⟩ := Option.map_eq_some_iff.1 hforgot
  have hresumes := hrun reader hreader
  rw [Prod.mk.injEq, Prod.mk.injEq] at hfields
  obtain ⟨hphase, hlast, hpersisted⟩ := hfields
  rw [Resumes, hlast, hpersisted] at hresumes
  cases hresumes hphase

end WakeReader

end Yaldabaoth
