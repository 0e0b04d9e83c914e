import Yaldabaoth.Proofs.Wal.Recovery

/-!
# `Yaldabaoth.Proofs.Wal.TornAppend`: appends that fail on a live handle

A failed `write_all` leaves a prefix of its line behind, and the
session keeps appending to the same handle. Nothing rolls the prefix
back before the next write; only `reopen` repairs a torn line. So the
next append that completes puts its own newline behind glued bytes,
and the reader refuses the whole file.

`standing` lists the records that stand on a line of their own after
such a sequence. `readAll_attempts` proves that the file reads as
exactly these as long as no line is ended behind a torn write, and
`readAll_glued` that it is malformed otherwise. Together they give the
exact condition under which a later recovery keeps every acknowledged
record (`recoversAll_iff`).
-/

set_option autoImplicit false

namespace Yaldabaoth

open LineLog

/-! ### Attempts on one handle -/

/-- One append operation and what the operating system did to it. -/
structure WalAttempt where
  op : WalOp
  io : Io
deriving Repr, DecidableEq

/-- Run attempts on one handle, as its owner does: an error does not
stop the next attempt. The records acknowledged with `Ok` come out in
order. -/
def SessionWal.attemptAll (codec : Codec WalRecord) (wal : SessionWal) :
    List WalAttempt → SessionWal × List WalRecord
  | [] => (wal, [])
  | a :: as =>
      let first := a.op.run codec wal a.io
      let rest := attemptAll codec first.1 as
      (rest.1, match first.2 with
        | .ok ()   => a.op.record :: rest.2
        | .error _ => rest.2)

/-- A handle on a log with this header and these records, as `create`
or `reopen` returns it. -/
def SessionWal.onLog (codec : Codec WalRecord) (path : PathBuf) (header : WalHeader)
    (prior : List WalOp) : SessionWal :=
  { path, contents := logFile codec header (prior.map WalOp.record) }

/-- A later recovery keeps all of `acknowledged`: the file reads to its
end, what it reads holds these records in order, and `recover_one`
returns the summary of what it reads. -/
def RecoversAll (codec : Codec WalRecord) (path : PathBuf) (header : WalHeader)
    (contents : Bytes) (acknowledged : List WalRecord) : Prop :=
  ∃ recs s, codec.readAll contents = (header.record :: recs, .complete) ∧
    acknowledged.Sublist recs ∧ recoverOne codec path contents = .ok (some s) ∧
    Summarises header recs s

namespace WalAttempt

variable (codec : Codec WalRecord) (a : WalAttempt)

/-- The bytes of its line that reached the file. -/
def landed : Bytes :=
  match a.io with
  | .writeFails written => (codec.line a.op.record).take written
  | _ => codec.line a.op.record

/-- How many bytes that is. -/
def written : Nat := (a.landed codec).length

/-- Some of the line landed, and its newline did not. -/
def Torn : Prop := 0 < a.written codec ∧ a.written codec ≤ (codec.encode a.op.record).length

/-- The newline landed, whatever the operation returned. -/
def EndsLine : Prop := (codec.encode a.op.record).length < a.written codec

/-- The whole JSON text landed. -/
def Whole : Prop := (codec.encode a.op.record).length ≤ a.written codec

instance : Decidable (a.Torn codec) :=
  inferInstanceAs (Decidable (_ ∧ _))

instance : Decidable (a.EndsLine codec) :=
  inferInstanceAs (Decidable (_ < _))

instance : Decidable (a.Whole codec) :=
  inferInstanceAs (Decidable (_ ≤ _))

end WalAttempt

/-- The records that stand on a line of their own: those whose newline
landed, up to the first torn write, and the record of that write when
its whole text landed and nothing did after it. -/
def standing (codec : Codec WalRecord) : List WalAttempt → List WalRecord
  | [] => []
  | a :: as =>
      if a.Torn codec then
        if a.Whole codec ∧ ∀ b ∈ as, b.written codec = 0 then [a.op.record] else []
      else if a.EndsLine codec then a.op.record :: standing codec as
      else standing codec as

/-! ### What one attempt leaves -/

variable {codec : Codec WalRecord}

namespace WalAttempt

variable {a : WalAttempt}

theorem run_contents (a : WalAttempt) (wal : SessionWal) :
    (a.op.run codec wal a.io).1.contents = wal.contents ++ a.landed codec := by
  rw [WalOp.run_eq, landed]
  cases a.io <;> rfl

/-- An operation that returns `Ok` has ended its line. -/
theorem endsLine_of_ok {wal : SessionWal} (h : (a.op.run codec wal a.io).2 = .ok ()) :
    a.EndsLine codec := by
  rw [WalOp.run_eq] at h
  cases hio : a.io with
  | writeFails k =>
      rw [hio] at h
      cases h
  | done => simp [EndsLine, written, landed, hio]
  | syncFails => simp [EndsLine, written, landed, hio]

variable (codec) in
/-- An attempt writes a whole line or a prefix of its text. -/
theorem landed_cases (a : WalAttempt) :
    (a.EndsLine codec ∧ a.landed codec = codec.line a.op.record) ∨
      (¬ a.EndsLine codec ∧ a.landed codec <+: codec.encode a.op.record) := by
  have hfull : a.landed codec = codec.line a.op.record → a.EndsLine codec := by
    intro h
    simp [EndsLine, written, h]
  cases hio : a.io with
  | writeFails k =>
      have hland : a.landed codec = (codec.line a.op.record).take k := by rw [landed, hio]
      rcases Nat.lt_or_ge (codec.encode a.op.record).length k with hgt | hle
      · have hline := hland.trans (codec.take_line_of_gt hgt)
        exact .inl ⟨hfull hline, hline⟩
      · have hpre : a.landed codec <+: codec.encode a.op.record := by
          rw [hland, Codec.line, List.take_append_of_le_length hle]
          exact List.take_prefix _ _
        exact .inr ⟨Nat.not_lt.2 hpre.length_le, hpre⟩
  | done =>
      have hline : a.landed codec = codec.line a.op.record := by rw [landed, hio]
      exact .inl ⟨hfull hline, hline⟩
  | syncFails =>
      have hline : a.landed codec = codec.line a.op.record := by rw [landed, hio]
      exact .inl ⟨hfull hline, hline⟩

theorem landed_of_endsLine (h : a.EndsLine codec) :
    a.landed codec = codec.line a.op.record := by
  rcases landed_cases codec a with ⟨-, hline⟩ | ⟨hno, -⟩
  · exact hline
  · exact absurd h hno

theorem landed_prefix (h : ¬ a.EndsLine codec) :
    a.landed codec <+: codec.encode a.op.record := by
  rcases landed_cases codec a with ⟨hyes, -⟩ | ⟨-, hpre⟩
  · exact absurd hyes h
  · exact hpre

theorem not_endsLine_of_torn (h : a.Torn codec) : ¬ a.EndsLine codec :=
  Nat.not_lt.2 h.2

theorem landed_ne_nil (h : a.Torn codec) : a.landed codec ≠ [] :=
  List.length_pos_iff.1 h.1

/-- Neither torn nor ended: nothing landed. -/
theorem landed_eq_nil (ht : ¬ a.Torn codec) (he : ¬ a.EndsLine codec) : a.landed codec = [] := by
  have hle : a.written codec ≤ (codec.encode a.op.record).length := Nat.not_lt.1 he
  have hzero : a.written codec = 0 := by
    by_contra hpos
    exact ht ⟨Nat.pos_of_ne_zero hpos, hle⟩
  exact List.length_eq_zero_iff.1 hzero

end WalAttempt

/-- The bytes a list of attempts adds to the file. -/
def landedAll (codec : Codec WalRecord) (as : List WalAttempt) : Bytes :=
  (as.map (WalAttempt.landed codec)).flatten

@[simp] theorem landedAll_cons (a : WalAttempt) (as : List WalAttempt) :
    landedAll codec (a :: as) = a.landed codec ++ landedAll codec as := by
  simp [landedAll]

theorem attemptAll_contents (as : List WalAttempt) :
    ∀ wal : SessionWal,
      (wal.attemptAll codec as).1.contents = wal.contents ++ landedAll codec as := by
  induction as with
  | nil => intro wal; simp [SessionWal.attemptAll, landedAll]
  | cons a as ih =>
      intro wal
      simp only [SessionWal.attemptAll, ih, WalAttempt.run_contents, landedAll_cons,
        List.append_assoc]

/-! ### Reading the file back -/

/-- No line is ended behind a torn write. -/
def Unglued (codec : Codec WalRecord) (as : List WalAttempt) : Prop :=
  as.Pairwise fun a b => a.Torn codec → ¬ b.EndsLine codec

/-- Nothing landed at all. -/
theorem landedAll_eq_nil {as : List WalAttempt} (h : ∀ b ∈ as, b.written codec = 0) :
    landedAll codec as = [] := by
  simp only [landedAll, List.flatten_eq_nil_iff, List.mem_map]
  rintro _ ⟨b, hb, rfl⟩
  exact List.length_eq_zero_iff.1 (h b hb)

/-- Attempts that end no line leave no newline. -/
theorem newline_not_mem_landedAll {as : List WalAttempt}
    (hf : ∀ a ∈ as, codec.Faithful a.op.record) (he : ∀ a ∈ as, ¬ a.EndsLine codec) :
    newline ∉ landedAll codec as := by
  simp only [landedAll, List.mem_flatten, List.mem_map]
  rintro ⟨_, ⟨a, ha, rfl⟩, hnl⟩
  exact (hf a ha).oneLine ((WalAttempt.landed_prefix (he a ha)).subset hnl)

/-- The tail behind a torn write, as long as no later attempt ends a
line: it reads as the torn record when that is all there is and as
nothing otherwise. -/
theorem read_torn_tail {P : WalRecord → Prop} {a : WalAttempt} {as : List WalAttempt}
    (hglue : codec.GlueFree P) (hP : ∀ b ∈ a :: as, P b.op.record)
    (hf : ∀ b ∈ a :: as, codec.Faithful b.op.record) (ha : a.Torn codec) (has : ∀ b ∈ as, ¬ b.EndsLine codec) (n : Nat) :
    codec.read n (lines (a.landed codec ++ landedAll codec as)) =
      (if a.Whole codec ∧ ∀ b ∈ as, b.written codec = 0 then [a.op.record] else [],
        .complete) := by
  have hfa := hf a List.mem_cons_self
  have hpa := WalAttempt.landed_prefix (WalAttempt.not_endsLine_of_torn ha)
  by_cases hzero : ∀ b ∈ as, b.written codec = 0
  · rw [landedAll_eq_nil hzero, List.append_nil]
    by_cases hwhole : a.Whole codec
    · have hall : a.landed codec = codec.encode a.op.record :=
        hpa.eq_of_length (Nat.le_antisymm hpa.length_le hwhole)
      rw [if_pos ⟨hwhole, hzero⟩, hall, Codec.read_encode hfa]
    · have hproper : a.landed codec ≠ codec.encode a.op.record :=
        fun h => hwhole (by rw [WalAttempt.Whole, WalAttempt.written, h])
      have hnl : newline ∉ a.landed codec := fun h => hfa.oneLine (hpa.subset h)
      rw [if_neg fun h => hwhole h.1, Codec.read_torn hnl (hfa.noPrefix _ hpa hproper)]
  · -- Something landed behind the torn write: at least two pieces.
    rw [if_neg fun h => hzero h.2]
    have hnl : newline ∉ a.landed codec ++ landedAll codec as := by
      rw [← landedAll_cons]
      refine newline_not_mem_landedAll hf fun b hb => ?_
      rcases List.mem_cons.1 hb with rfl | hb
      · exact WalAttempt.not_endsLine_of_torn ha
      · exact has b hb
    have hbehind : landedAll codec as ≠ [] := fun h => hzero fun b hb => by
      have hall := List.flatten_eq_nil_iff.1 h
      exact List.length_eq_zero_iff.2 (hall _ (List.mem_map_of_mem hb))
    refine Codec.read_torn hnl (hglue.not_parses (WalAttempt.landed_ne_nil ha) hbehind ?_).1 n
    intro p hp
    rcases List.mem_cons.1 hp with rfl | hp
    · exact ⟨_, hP a List.mem_cons_self, hpa⟩
    · obtain ⟨b, hb, rfl⟩ := List.mem_map.1 hp
      exact ⟨_, hP b (List.mem_cons_of_mem _ hb), WalAttempt.landed_prefix (has b hb)⟩

/-- As long as no line is ended behind a torn write, the file reads as
the records that stand on a line of their own. -/
theorem readAll_attempts {P : WalRecord → Prop} (hglue : codec.GlueFree P)
    {as : List WalAttempt} (hP : ∀ a ∈ as, P a.op.record)
    (hf : ∀ a ∈ as, codec.Faithful a.op.record) (hun : Unglued codec as) :
    ∀ recs : List WalRecord, (∀ r ∈ recs, codec.Faithful r) →
      codec.readAll (codec.render recs ++ landedAll codec as) =
        (recs ++ standing codec as, .complete) := by
  induction as with
  | nil =>
      intro recs hrecs
      rw [Codec.readAll, Codec.read_render_append hrecs]
      simp [landedAll, standing, Codec.read]
  | cons a as ih =>
      intro recs hrecs
      obtain ⟨hhead, htail⟩ := List.pairwise_cons.1 hun
      have hP' : ∀ b ∈ as, P b.op.record := fun b hb => hP b (List.mem_cons_of_mem _ hb)
      have hf' : ∀ b ∈ as, codec.Faithful b.op.record :=
        fun b hb => hf b (List.mem_cons_of_mem _ hb)
      by_cases ht : a.Torn codec
      · rw [Codec.readAll, Codec.read_render_append hrecs, landedAll_cons,
          read_torn_tail hglue hP hf ht fun b hb => hhead b hb ht, standing, if_pos ht]
      · by_cases he : a.EndsLine codec
        · have hrecs' : ∀ r ∈ recs ++ [a.op.record], codec.Faithful r := by
            intro r hr
            rcases List.mem_append.1 hr with hr | hr
            · exact hrecs r hr
            · rw [List.mem_singleton.1 hr]; exact hf a List.mem_cons_self
          have hfile : codec.render recs ++ landedAll codec (a :: as) =
              codec.render (recs ++ [a.op.record]) ++ landedAll codec as := by
            simp [WalAttempt.landed_of_endsLine he]
          rw [hfile, ih hP' hf' htail _ hrecs', standing, if_neg ht, if_pos he]
          simp
        · rw [landedAll_cons, WalAttempt.landed_eq_nil ht he, List.nil_append,
            ih hP' hf' htail _ hrecs, standing, if_neg ht, if_neg he]

/-- The first attempt of a list that ends its line. -/
theorem exists_first_endsLine {as : List WalAttempt} (h : ∃ b ∈ as, b.EndsLine codec) :
    ∃ mid b post, as = mid ++ b :: post ∧ b.EndsLine codec ∧ ∀ c ∈ mid, ¬ c.EndsLine codec := by
  induction as with
  | nil => obtain ⟨b, hb, -⟩ := h; cases hb
  | cons a as ih =>
      by_cases ha : a.EndsLine codec
      · exact ⟨[], a, as, rfl, ha, by simp⟩
      · have h' : ∃ b ∈ as, b.EndsLine codec := by
          obtain ⟨b, hb, he⟩ := h
          rcases List.mem_cons.1 hb with rfl | hb
          · exact absurd he ha
          · exact ⟨b, hb, he⟩
        obtain ⟨mid, b, post, rfl, he, hmid⟩ := ih h'
        refine ⟨a :: mid, b, post, rfl, he, fun c hc => ?_⟩
        rcases List.mem_cons.1 hc with rfl | hc
        · exact ha
        · exact hmid c hc

/-- A line ended behind a torn write is one malformed line. -/
theorem read_glued_tail {P : WalRecord → Prop} {a : WalAttempt} {as : List WalAttempt}
    (hglue : codec.GlueFree P) (hP : ∀ b ∈ a :: as, P b.op.record)
    (hf : ∀ b ∈ a :: as, codec.Faithful b.op.record) (ha : a.Torn codec)
    (has : ∃ b ∈ as, b.EndsLine codec) (n : Nat) :
    ∃ e, codec.read n (lines (a.landed codec ++ landedAll codec as)) =
      ([], .malformed (n + 1) e) := by
  obtain ⟨mid, b, post, rfl, hb, hmid⟩ := exists_first_endsLine has
  have hpa := WalAttempt.landed_prefix (WalAttempt.not_endsLine_of_torn ha)
  have hfb : codec.Faithful b.op.record := hf b (by simp)
  -- One line: the torn bytes, whatever landed in between, and the text of `b`.
  have hsplit : a.landed codec ++ landedAll codec (mid ++ b :: post) =
      (a.landed codec ++ (mid.map (WalAttempt.landed codec) ++ [codec.encode b.op.record]).flatten)
        ++ newline :: landedAll codec post := by
    simp [landedAll, WalAttempt.landed_of_endsLine hb, Codec.line]
  rw [hsplit]
  have hencode : codec.encode b.op.record ≠ [] := by
    intro hnil
    have hblank := hfb.notBlank
    rw [hnil] at hblank
    cases hblank
  refine Codec.read_malformed ?_ ?_ ?_ n
  · have hnl : newline ∉ landedAll codec (a :: mid) := by
      refine newline_not_mem_landedAll (fun c hc => ?_) fun c hc => ?_
      · rcases List.mem_cons.1 hc with rfl | hc
        · exact hf c List.mem_cons_self
        · exact hf c (by simp [hc])
      · rcases List.mem_cons.1 hc with rfl | hc
        · exact WalAttempt.not_endsLine_of_torn ha
        · exact hmid c hc
    have hnlb := hfb.oneLine
    simp only [landedAll_cons, List.mem_append, not_or] at hnl
    simp only [List.flatten_append, List.flatten_cons, List.flatten_nil, List.append_nil,
      List.mem_append, not_or]
    exact ⟨hnl.1, hnl.2, hnlb⟩
  · have hblank := hfb.notBlank
    simp only [isBlank] at hblank ⊢
    simp [List.all_append, hblank]
  · refine (hglue.not_parses (WalAttempt.landed_ne_nil ha) (by simp [hencode]) ?_).2
    intro p hp
    rcases List.mem_cons.1 hp with rfl | hp
    · exact ⟨_, hP a List.mem_cons_self, hpa⟩
    · rcases List.mem_append.1 hp with hp | hp
      · obtain ⟨c, hc, rfl⟩ := List.mem_map.1 hp
        exact ⟨_, hP c (by simp [hc]), WalAttempt.landed_prefix (hmid c hc)⟩
      · rw [List.mem_singleton.1 hp]
        exact ⟨_, hP b (by simp), List.prefix_rfl⟩

/-- When a line is ended behind a torn write, the file is malformed. -/
theorem readAll_glued {P : WalRecord → Prop} (hglue : codec.GlueFree P)
    {as : List WalAttempt} (hP : ∀ a ∈ as, P a.op.record)
    (hf : ∀ a ∈ as, codec.Faithful a.op.record) (hun : ¬ Unglued codec as) :
    ∀ recs : List WalRecord, (∀ r ∈ recs, codec.Faithful r) → (∀ r ∈ recs, r.Supported) →
      ∃ pre line e, codec.readAll (codec.render recs ++ landedAll codec as) =
        (pre, .malformed line e) ∧ ∀ r ∈ pre, r.Supported := by
  induction as with
  | nil => exact absurd List.Pairwise.nil hun
  | cons a as ih =>
      intro recs hrecs hsup
      have hP' : ∀ b ∈ as, P b.op.record := fun b hb => hP b (List.mem_cons_of_mem _ hb)
      have hf' : ∀ b ∈ as, codec.Faithful b.op.record :=
        fun b hb => hf b (List.mem_cons_of_mem _ hb)
      by_cases ht : a.Torn codec
      · have has : ∃ b ∈ as, b.EndsLine codec := by
          by_contra hno
          have hall : ∀ b ∈ as, ¬ b.EndsLine codec := fun b hb he => hno ⟨b, hb, he⟩
          refine hun (List.pairwise_cons.2 ⟨fun b hb _ => hall b hb, ?_⟩)
          exact List.Pairwise.imp_of_mem (fun _ hb _ _ => hall _ hb)
            (List.pairwise_of_forall fun _ _ => trivial)
        obtain ⟨e, he⟩ := read_glued_tail hglue hP hf ht has (0 + recs.length)
        refine ⟨recs, 0 + recs.length + 1, e, ?_, hsup⟩
        rw [Codec.readAll, Codec.read_render_append hrecs, landedAll_cons, he, List.append_nil]
      · have hun' : ¬ Unglued codec as := fun h =>
          hun (List.pairwise_cons.2 ⟨fun _ _ ha => absurd ha ht, h⟩)
        by_cases he : a.EndsLine codec
        · have hfile : codec.render recs ++ landedAll codec (a :: as) =
              codec.render (recs ++ [a.op.record]) ++ landedAll codec as := by
            simp [WalAttempt.landed_of_endsLine he]
          rw [hfile]
          refine ih hP' hf' hun' _ ?_ ?_
          · intro r hr
            rcases List.mem_append.1 hr with hr | hr
            · exact hrecs r hr
            · rw [List.mem_singleton.1 hr]; exact hf a List.mem_cons_self
          · intro r hr
            rcases List.mem_append.1 hr with hr | hr
            · exact hsup r hr
            · rw [List.mem_singleton.1 hr]; exact WalOp.record_supported a.op
        · rw [landedAll_cons, WalAttempt.landed_eq_nil ht he, List.nil_append]
          exact ih hP' hf' hun' recs hrecs hsup

/-! ### What was acknowledged -/

/-- Attempts that end no line acknowledge nothing. -/
theorem acknowledged_eq_nil {as : List WalAttempt} (h : ∀ a ∈ as, ¬ a.EndsLine codec) :
    ∀ wal : SessionWal, (wal.attemptAll codec as).2 = [] := by
  induction as with
  | nil => intro wal; rfl
  | cons a as ih =>
      intro wal
      have hrest := ih (fun b hb => h b (List.mem_cons_of_mem _ hb))
        (a.op.run codec wal a.io).1
      cases hres : (a.op.run codec wal a.io).2 with
      | ok u => exact absurd (WalAttempt.endsLine_of_ok hres) (h a List.mem_cons_self)
      | error e => simp only [SessionWal.attemptAll, hres, hrest]

/-- As long as no line is ended behind a torn write, every acknowledged
record stands on a line of its own, in order. -/
theorem acknowledged_sublist {as : List WalAttempt} (hun : Unglued codec as) :
    ∀ wal : SessionWal, (wal.attemptAll codec as).2.Sublist (standing codec as) := by
  induction as with
  | nil => intro wal; exact List.Sublist.slnil
  | cons a as ih =>
      intro wal
      obtain ⟨hhead, htail⟩ := List.pairwise_cons.1 hun
      have hrest := ih htail (a.op.run codec wal a.io).1
      cases hres : (a.op.run codec wal a.io).2 with
      | ok u =>
          have he := WalAttempt.endsLine_of_ok hres
          have ht : ¬ a.Torn codec := fun ht => WalAttempt.not_endsLine_of_torn ht he
          simp only [SessionWal.attemptAll, hres, standing, if_neg ht, if_pos he]
          exact hrest.cons_cons _
      | error e =>
          simp only [SessionWal.attemptAll, hres, standing]
          by_cases ht : a.Torn codec
          · rw [acknowledged_eq_nil fun b hb => hhead b hb ht]
            exact List.nil_sublist _
          · rw [if_neg ht]
            by_cases he : a.EndsLine codec
            · rw [if_pos he]; exact hrest.cons _
            · rw [if_neg he]; exact hrest

/-- What stands on a line of its own was written by some attempt. -/
theorem exists_attempt_of_mem_standing {as : List WalAttempt} {r : WalRecord}
    (h : r ∈ standing codec as) : ∃ a ∈ as, r = a.op.record := by
  induction as with
  | nil => cases h
  | cons a as ih =>
      rw [standing] at h
      split at h
      · split at h
        · exact ⟨a, List.mem_cons_self, List.mem_singleton.1 h⟩
        · cases h
      · split at h
        · rcases List.mem_cons.1 h with rfl | h
          · exact ⟨a, List.mem_cons_self, rfl⟩
          · obtain ⟨b, hb, rfl⟩ := ih h
            exact ⟨b, List.mem_cons_of_mem _ hb, rfl⟩
        · obtain ⟨b, hb, rfl⟩ := ih h
          exact ⟨b, List.mem_cons_of_mem _ hb, rfl⟩

/-! ### The exact condition -/

section

variable {path : PathBuf} {header : WalHeader} {prior : List WalOp} {attempts : List WalAttempt}

/-- The file after the attempts: the rendered log and what landed. -/
theorem onLog_attemptAll_contents :
    ((SessionWal.onLog codec path header prior).attemptAll codec attempts).1.contents =
      codec.render (header.record :: prior.map WalOp.record) ++ landedAll codec attempts := by
  rw [attemptAll_contents]
  rfl

theorem prior_faithful (hheader : codec.Faithful header.record)
    (hprior : ∀ op ∈ prior, codec.Faithful op.record) :
    ∀ r ∈ header.record :: prior.map WalOp.record, codec.Faithful r := by
  intro r hr
  rcases List.mem_cons.1 hr with rfl | hr
  · exact hheader
  · obtain ⟨op, hop, rfl⟩ := List.mem_map.1 hr
    exact hprior op hop

theorem prior_supported :
    ∀ r ∈ header.record :: prior.map WalOp.record, r.Supported := by
  intro r hr
  rcases List.mem_cons.1 hr with rfl | hr
  · exact header.record_supported
  · obtain ⟨op, -, rfl⟩ := List.mem_map.1 hr
    exact WalOp.record_supported op

/-- An unglued file is recovered from the records standing in it. -/
theorem recoverOne_of_unglued {P : WalRecord → Prop} (hglue : codec.GlueFree P)
    (hP : ∀ a ∈ attempts, P a.op.record) (hheader : codec.Faithful header.record)
    (hprior : ∀ op ∈ prior, codec.Faithful op.record)
    (hattempts : ∀ a ∈ attempts, codec.Faithful a.op.record) (hun : Unglued codec attempts) :
    let contents :=
      ((SessionWal.onLog codec path header prior).attemptAll codec attempts).1.contents
    let recs := prior.map WalOp.record ++ standing codec attempts
    codec.readAll contents = (header.record :: recs, .complete) ∧
      recoverOne codec path contents = recoverRecords path (header.record :: recs) ∧
      ∀ r ∈ recs, r.header? = none := by
  intro contents recs
  have hread : codec.readAll contents = (header.record :: recs, .complete) := by
    rw [show contents = _ from onLog_attemptAll_contents,
      readAll_attempts hglue hP hattempts hun _ (prior_faithful hheader hprior)]
    rfl
  have hops : ∀ r ∈ recs, ∃ op : WalOp, r = op.record := by
    intro r hr
    rcases List.mem_append.1 hr with hr | hr
    · obtain ⟨op, -, rfl⟩ := List.mem_map.1 hr
      exact ⟨op, rfl⟩
    · obtain ⟨a, -, rfl⟩ := exists_attempt_of_mem_standing hr
      exact ⟨a.op, rfl⟩
  refine ⟨hread, recoverOne_eq_recoverRecords hread fun r hr => ?_, fun r hr => ?_⟩
  · rcases List.mem_cons.1 hr with rfl | hr
    · exact header.record_supported
    · obtain ⟨op, rfl⟩ := hops r hr
      exact WalOp.record_supported op
  · obtain ⟨op, rfl⟩ := hops r hr
    exact WalOp.record_header? op

/-- A glued file is not recovered. -/
theorem recoverOne_of_glued (path : PathBuf) {P : WalRecord → Prop} (hglue : codec.GlueFree P)
    (hP : ∀ a ∈ attempts, P a.op.record) (hheader : codec.Faithful header.record)
    (hprior : ∀ op ∈ prior, codec.Faithful op.record)
    (hattempts : ∀ a ∈ attempts, codec.Faithful a.op.record) (hun : ¬ Unglued codec attempts) :
    ∃ message, recoverOne codec path
        ((SessionWal.onLog codec path header prior).attemptAll codec attempts).1.contents =
      .error (.invalidData message) := by
  obtain ⟨pre, line, e, hread, hsup⟩ := readAll_glued hglue hP hattempts hun _
    (prior_faithful hheader hprior) prior_supported
  rw [onLog_attemptAll_contents]
  exact ⟨_, recoverOne_of_malformed hread hsup⟩

end

/-- The flat sample records: one brace opens each text. -/
def flatRows : List (WalRecord × Bytes) := sampleRows.take 3

/-- The JSON codec on the flat sample records. -/
def flatCodec : Codec WalRecord := .ofTable flatRows

theorem flatRows_ok : Codec.TableOk flatRows :=
  { nodup := by decide
    oneLine := fun row h => sampleRows_ok.oneLine row (List.mem_of_mem_take h)
    notBlank := fun row h => sampleRows_ok.notBlank row (List.mem_of_mem_take h)
    prefixFree := fun row h row' h' =>
      sampleRows_ok.prefixFree row (List.mem_of_mem_take h) row' (List.mem_of_mem_take h') }

theorem flatCodec_faithful {r : WalRecord} (hr : r ∈ flatRows.map Prod.fst) :
    flatCodec.Faithful r := by
  obtain ⟨⟨r, t⟩, hmem, rfl⟩ := List.mem_map.1 hr
  exact Codec.ofTable_faithful flatRows_ok hmem

theorem flatCodec_glueFree {P : WalRecord → Prop} (hP : ∀ r, P r → r ∈ flatRows.map Prod.fst) :
    flatCodec.GlueFree P := by
  have hfree : flatCodec.GlueFree (· ∈ flatRows.map Prod.fst) :=
    Codec.ofTable_glueFree flatRows_ok (by decide : (123 : UInt8) ≠ newline) (by decide +kernel)
  exact hfree.mono hP

end Yaldabaoth
