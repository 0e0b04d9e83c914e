import Yaldabaoth.Model.ReplyDrafts

/-!
# `Yaldabaoth.Proofs.View.Freezing`: drafts frozen into a transcript

`freezeYouBlocks` weaves blocks into the lines of a transcript: each stands
behind the line that it is anchored at, or at the end, and the blocks read
in their order.
-/

set_option autoImplicit false

namespace Yaldabaoth

namespace Freezing

/-! ### Texts -/

theorem splitLines_ne_nil (text : List Char) : splitLines text ≠ [] := by
  rw [splitLines]
  exact List.splitOnP_ne_nil _ _

/-- A text that is not blank has a row that is not empty, also without its last newline. -/
theorem splitLines_filled {text : List Char} (h : isBlankText text = false) :
    splitLines (stripSuffix text) ≠ [[]] := by
  intro hsplit
  have hbody : stripSuffix text = [] := by
    have hjoin : ['\n'].intercalate ((stripSuffix text).splitOn '\n') = stripSuffix text :=
      List.intercalate_splitOn '\n'
    rw [splitLines] at hsplit
    rw [hsplit] at hjoin
    simpa using hjoin.symm
  rw [stripSuffix] at hbody
  split at hbody
  · rename_i hlast
    have htext : text = ['\n'] := by
      obtain ⟨front, rfl⟩ := List.getLast?_eq_some_iff.1 hlast
      rw [List.dropLast_concat] at hbody
      rw [hbody]
      rfl
    rw [htext] at h
    exact absurd h (by decide)
  · rw [hbody] at h
    exact absurd h (by decide)

/-- The lines of a draft that is frozen between two lines. -/
def draftLines (turn : TurnId) (text : List Char) : List TaggedLine :=
  (splitLines (stripSuffix text)).map fun l => (l, some turn)

/-- The lines of a draft at the end, where a last empty line is left to what follows. -/
def tailLines (turn : TurnId) (text : List Char) : List TaggedLine :=
  (if (splitLines (stripSuffix text)).getLast? = some [] then
    (splitLines (stripSuffix text)).dropLast
  else splitLines (stripSuffix text)).map fun l => (l, some turn)

/-! ### At the end -/

/-- The transcript without an empty last line. -/
def base (lines : List TaggedLine) : List TaggedLine :=
  if lines.getLast?.any fun l => l.1.isEmpty then lines.dropLast else lines

theorem append_concat (front : List TaggedLine) (last : TaggedLine) (text : List Char) :
    ∃ added, append (front ++ [last]) text = front ++ added ∧
      ∀ first more, splitLines text = first :: more →
        added.map Prod.fst = (last.1 ++ first) :: more := by
  cases hsplit : splitLines text with
  | nil => exact absurd hsplit (splitLines_ne_nil text)
  | cons first more =>
      refine ⟨((last.1 ++ first) :: more).zipIdx.map fun p =>
        (p.1, if p.2 = if last.1.isEmpty then more.length else 0 then last.2 else none), ?_, ?_⟩
      · simp [append, hsplit]
      · rintro _ _ ⟨⟩
        rw [List.map_map]
        exact List.zipIdx_map_fst 0 _

/-- A line break behind text makes an empty line below it. -/
theorem append_newline {front : List TaggedLine} {last : TaggedLine} (h : last.1 ≠ []) :
    append (front ++ [last]) ['\n'] = front ++ [last] ++ [([], none)] := by
  have hsplit : splitLines ['\n'] = [[], []] := rfl
  simp [append, hsplit, h]

/-- The last steps of `freezeAsUserTurn`, on a transcript with an empty last line. -/
theorem freeze_empty_line (front : List TaggedLine) (tag : Option TurnId) {text : List Char}
    (h : isBlankText text = false) (turn : TurnId) :
    let lines := append (front ++ [([], tag)]) (stripSuffix text)
    let lines := if endsLine lines then lines else append lines ['\n']
    lines.take front.length ++ (lines.drop front.length).map (fun l => (l.1, some turn)) =
      front ++ tailLines turn text ++ [([], some turn)] := by
  have hfilled := splitLines_filled h
  cases hsplit : splitLines (stripSuffix text) with
  | nil => exact absurd hsplit (splitLines_ne_nil _)
  | cons first more =>
      obtain ⟨added, happend, hadded⟩ := append_concat front ([], tag) (stripSuffix text)
      have hrows : added.map Prod.fst = splitLines (stripSuffix text) := by
        rw [hadded first more hsplit, hsplit]
        rfl
      have htagged : added.map (fun l => (l.1, some turn)) =
          (splitLines (stripSuffix text)).map fun l => (l, some turn) := by
        rw [← hrows, List.map_map]
        rfl
      obtain ⟨init, last, rfl⟩ : ∃ init last, added = init ++ [last] := by
        have hne : added ≠ [] := by
          rintro rfl
          exact splitLines_ne_nil _ hrows.symm
        exact ⟨added.dropLast, added.getLast hne, (List.dropLast_concat_getLast hne).symm⟩
      have hlast : (splitLines (stripSuffix text)).getLast? = some last.1 := by
        rw [← hrows, List.map_append, List.map_singleton, List.getLast?_concat]
      simp only [happend]
      by_cases hempty : last.1 = []
      · -- the text brings its own line break
        have hlong : init ≠ [] := by
          rintro rfl
          rw [← hrows] at hfilled
          exact hfilled (by simp [hempty])
        have hends : endsLine (front ++ (init ++ [last])) = true := by
          have hpos := List.length_pos_iff.2 hlong
          simp [endsLine, hempty]
          omega
        have htail : (splitLines (stripSuffix text)).dropLast ++ [[]] =
            splitLines (stripSuffix text) := by
          rw [← hrows, List.map_append, List.map_singleton, List.dropLast_concat, hempty]
        rw [if_pos hends, List.take_left, List.drop_left, htagged, tailLines, hlast, hempty,
          if_pos rfl, List.append_assoc]
        congr 1
        nth_rewrite 1 [← htail]
        rw [List.map_append]
        rfl
      · have hends : endsLine (front ++ (init ++ [last])) = false := by
          simp [endsLine, ← List.append_assoc, hempty]
        have hbreak : append (front ++ (init ++ [last])) ['\n'] =
            front ++ (init ++ [last] ++ [([], none)]) := by
          rw [← List.append_assoc, append_newline hempty]
          simp
        have hother : ¬ (splitLines (stripSuffix text)).getLast? = some [] := by
          rw [hlast]
          simpa using hempty
        rw [hends, if_neg Bool.false_ne_true, hbreak, List.take_left, List.drop_left,
          List.map_append, htagged, tailLines, if_neg hother, List.append_assoc]
        rfl

/-- A draft that is frozen at the end. -/
theorem freezeAsUserTurn_eq {lines : List TaggedLine} (hne : lines ≠ []) {text : List Char}
    (h : isBlankText text = false) (turn : TurnId) :
    freezeAsUserTurn lines text turn = base lines ++ tailLines turn text ++ [([], some turn)] := by
  obtain ⟨front, ⟨last, tag⟩, rfl⟩ : ∃ front last, lines = front ++ [last] :=
    ⟨lines.dropLast, lines.getLast hne, (List.dropLast_concat_getLast hne).symm⟩
  by_cases hlast : last = []
  · subst hlast
    have hstay : (!isEmptyDocument (front ++ [([], tag)]) && !endsLine (front ++ [([], tag)])) =
        false := by
      cases front with
      | nil => simp [isEmptyDocument]
      | cons l front =>
          have hlast : (l :: (front ++ [([], tag)])).getLast? = some ([], tag) :=
            List.getLast?_concat (l := l :: front)
          simp [endsLine, hlast]
    have hbase : base (front ++ [([], tag)]) = front := by simp [base]
    have hlength : (front ++ [(([] : List Char), tag)]).length - 1 = front.length := by simp
    simp only [freezeAsUserTurn, hstay, Bool.false_eq_true, if_false, hbase, hlength]
    exact freeze_empty_line front tag h turn
  · have hbreak : (!isEmptyDocument (front ++ [(last, tag)]) &&
        !endsLine (front ++ [(last, tag)])) = true := by
      simp [isEmptyDocument, endsLine, hlast]
    have hbase : base (front ++ [(last, tag)]) = front ++ [(last, tag)] := by simp [base, hlast]
    have happend : append (front ++ [(last, tag)]) ['\n'] = front ++ [(last, tag)] ++ [([], none)] :=
      append_newline hlast
    have hlength : (front ++ [(last, tag)] ++ [(([] : List Char), (none : Option TurnId))]).length - 1 =
        (front ++ [(last, tag)]).length := by simp
    simp only [freezeAsUserTurn, hbreak, if_true, happend, hbase, hlength]
    exact freeze_empty_line (front ++ [(last, tag)]) none h turn

/-- Drafts frozen at the end, one after another. -/
theorem freezeAsUserTurn_foldl (turn : TurnId) (tail : List YouBlock)
    (hfilled : ∀ b ∈ tail, isBlankText b.2 = false) (front : List TaggedLine) :
    tail.foldl (fun lines b => freezeAsUserTurn lines b.2 turn) (front ++ [([], some turn)]) =
      front ++ tail.flatMap (fun b => tailLines turn b.2) ++ [([], some turn)] := by
  induction tail generalizing front with
  | nil => simp
  | cons b tail ih =>
      have hbase : base (front ++ [([], some turn)]) = front := by simp [base]
      rw [List.foldl_cons, freezeAsUserTurn_eq (by simp) (hfilled b List.mem_cons_self), hbase,
        ih fun b hb => hfilled b (List.mem_cons_of_mem _ hb)]
      simp

/-- The transcript with the drafts of the end. -/
def withTail (turn : TurnId) (lines : List TaggedLine) (tail : List YouBlock) : List TaggedLine :=
  if tail.isEmpty then lines
  else base lines ++ tail.flatMap (fun b => tailLines turn b.2) ++ [([], some turn)]

theorem withTail_foldl (turn : TurnId) {lines : List TaggedLine} (hne : lines ≠ [])
    {tail : List YouBlock} (hfilled : ∀ b ∈ tail, isBlankText b.2 = false) :
    tail.foldl (fun lines b => freezeAsUserTurn lines b.2 turn) lines =
      withTail turn lines tail := by
  cases tail with
  | nil => rfl
  | cons b tail =>
      rw [List.foldl_cons, freezeAsUserTurn_eq hne (hfilled b List.mem_cons_self),
        freezeAsUserTurn_foldl turn tail fun b hb => hfilled b (List.mem_cons_of_mem _ hb)]
      simp [withTail]

theorem base_length (lines : List TaggedLine) : lines.length - 1 ≤ (base lines).length := by
  rw [base]
  split
  · simp
  · omega

/-! ### Between lines -/

/-- The lines from number `k` on, each with the drafts that are anchored at it. -/
def insertFrom (turn : TurnId) (k : Nat) (lines : List TaggedLine) (inner : List YouBlock) :
    List TaggedLine :=
  (lines.zipIdx k).flatMap fun p =>
    p.1 :: (inner.filter fun b => b.1 == some p.2).flatMap fun b => draftLines turn b.2

theorem insertFrom_append (turn : TurnId) (k : Nat) (upper lower : List TaggedLine)
    (inner : List YouBlock) :
    insertFrom turn k (upper ++ lower) inner =
      insertFrom turn k upper inner ++ insertFrom turn (k + upper.length) lower inner := by
  rw [insertFrom, List.zipIdx_append, List.flatMap_append]
  rfl

theorem insertFrom_singleton (turn : TurnId) (k : Nat) (line : TaggedLine) (inner : List YouBlock) :
    insertFrom turn k [line] inner =
      line :: (inner.filter fun b => b.1 == some k).flatMap fun b => draftLines turn b.2 := by
  simp [insertFrom]

theorem insertFrom_congr (turn : TurnId) {k : Nat} {lines : List TaggedLine}
    {inner inner' : List YouBlock} (h : ∀ i, k ≤ i → i < k + lines.length →
      (inner.filter fun b => b.1 == some i) = inner'.filter fun b => b.1 == some i) :
    insertFrom turn k lines inner = insertFrom turn k lines inner' := by
  induction lines generalizing k with
  | nil => rfl
  | cons l lines ih =>
      have hrest := ih (k := k + 1) fun i hi hlt => h i (by omega) (by simp; omega)
      simp only [insertFrom, List.zipIdx_cons, List.flatMap_cons] at hrest ⊢
      rw [h k (le_refl k) (by simp), hrest]

/-- Lines that no draft is anchored at stay as they are. -/
theorem insertFrom_eq_self (turn : TurnId) {k : Nat} {lines : List TaggedLine}
    {inner : List YouBlock}
    (h : ∀ b ∈ inner, ∀ i, k ≤ i → i < k + lines.length → b.1 ≠ some i) :
    insertFrom turn k lines inner = lines := by
  have hnil : insertFrom turn k lines inner = insertFrom turn k lines [] := by
    apply insertFrom_congr
    intro i hi hlt
    rw [List.filter_eq_nil_iff.2]
    · rfl
    · intro b hb
      simpa using h b hb i hi hlt
  rw [hnil]
  clear hnil h
  induction lines generalizing k with
  | nil => rfl
  | cons l lines ih => simpa [insertFrom, List.zipIdx_cons] using ih (k := k + 1)

/-- Drafts between lines, in the order of their anchors. -/
structure Inner (n : Nat) (inner : List YouBlock) : Prop where
  anchored : ∀ b ∈ inner, ∃ a, b.1 = some a ∧ a + 1 < n
  ascending : inner.Pairwise fun a b => ∀ i j, a.1 = some i → b.1 = some j → i < j

theorem Inner.tail {n : Nat} {b : YouBlock} {inner : List YouBlock} (h : Inner n (b :: inner)) :
    Inner n inner :=
  ⟨fun c hc => h.anchored c (List.mem_cons_of_mem _ hc), (List.pairwise_cons.1 h.ascending).2⟩

/-- Below the first anchor there are the others. -/
theorem Inner.later {n : Nat} {b : YouBlock} {inner : List YouBlock} (h : Inner n (b :: inner))
    {a : Nat} (ha : b.1 = some a) : ∀ c ∈ inner, ∀ i, c.1 = some i → a < i :=
  fun c hc i hi => (List.pairwise_cons.1 h.ascending).1 c hc a i ha hi

theorem freezeBlock_some {turn : TurnId} {lines : List TaggedLine} {b : YouBlock} {a : Nat}
    (h : b.1 = some a) : freezeBlock turn lines b = freezeAsUserTurnAt lines a b.2 turn := by
  simp [freezeBlock, h]

theorem freezeBlock_none {turn : TurnId} {lines : List TaggedLine} {b : YouBlock}
    (h : b.1 = none) : freezeBlock turn lines b = freezeAsUserTurn lines b.2 turn := by
  simp [freezeBlock, h]

/-- Frozen from the lowest anchor up, each draft lands behind the line that it was anchored at. -/
theorem insertFrom_foldr (turn : TurnId) (lines : List TaggedLine) {inner : List YouBlock}
    (h : Inner lines.length inner) :
    inner.foldr (fun b lines => freezeBlock turn lines b) lines =
      insertFrom turn 0 lines inner := by
  induction inner with
  | nil => exact (insertFrom_eq_self turn (by simp)).symm
  | cons b inner ih =>
      obtain ⟨a, ha, hlt⟩ := h.anchored b List.mem_cons_self
      have hlater := h.later ha
      rw [List.foldr_cons, ih h.tail, freezeBlock_some ha]
      obtain ⟨upper, line, lower, hupper, rfl⟩ : ∃ upper line lower,
          upper.length = a ∧ lines = upper ++ [line] ++ lower :=
        ⟨lines.take a, lines[a], lines.drop (a + 1), by simp; omega, by simp⟩
      have hlength : (upper ++ [line]).length = a + 1 := by simp [hupper]
      -- the lines down to the anchor are not touched by the drafts below
      have habove : insertFrom turn 0 (upper ++ [line]) inner = upper ++ [line] := by
        apply insertFrom_eq_self
        intro c hc i _ hi heq
        have := hlater c hc i heq
        omega
      have hsame : insertFrom turn (0 + (upper ++ [line]).length) lower (b :: inner) =
          insertFrom turn (0 + (upper ++ [line]).length) lower inner := by
        apply insertFrom_congr
        intro i hi _
        rw [List.filter_cons_of_neg]
        rw [ha]
        simp
        omega
      have hhere : insertFrom turn 0 (upper ++ [line]) (b :: inner) =
          upper ++ [line] ++ draftLines turn b.2 := by
        rw [insertFrom_append, insertFrom_eq_self]
        · have hnone : (inner.filter fun c => c.1 == some (0 + upper.length)) = [] := by
            rw [List.filter_eq_nil_iff]
            intro c hc heq
            have := hlater c hc (0 + upper.length) (by simpa using heq)
            omega
          rw [insertFrom_singleton, List.filter_cons_of_pos (by simp [ha, hupper]), hnone]
          simp
        · intro c hc i _ hi heq
          rcases List.mem_cons.1 hc with rfl | hc
          · rw [ha] at heq
            cases heq
            omega
          · have := hlater c hc i heq
            omega
      rw [insertFrom_append turn 0 (upper ++ [line]), insertFrom_append turn 0 (upper ++ [line]),
        habove, hhere, hsame]
      have hlong : ¬ (upper ++ [line] ++ insertFrom turn (0 + (upper ++ [line]).length) lower
          inner).length ≤ a + 1 := by
        have hpos : lower ≠ [] := by
          rintro rfl
          rw [List.append_nil] at hlt
          omega
        obtain ⟨l, more, rfl⟩ := List.exists_cons_of_ne_nil hpos
        simp [insertFrom, List.zipIdx_cons, hupper]
      rw [freezeAsUserTurnAt, if_neg hlong, ← hlength, List.take_left, List.drop_left]
      rfl

/-! ### The order of freezing -/

theorem orderedInsert_last {α : Type} {r : α → α → Prop} [DecidableRel r] {a : α} {l : List α}
    (h : ∀ b ∈ l, ¬ r a b) : l.orderedInsert r a = l ++ [a] := by
  induction l with
  | nil => rfl
  | cons b l ih =>
      rw [List.orderedInsert, if_neg (h b List.mem_cons_self),
        ih fun c hc => h c (List.mem_cons_of_mem _ hc)]
      rfl

/-- Whether a block goes to the end of a transcript of `n` lines. -/
def isTail (n : Nat) (b : YouBlock) : Bool :=
  match b.1 with
  | some a => decide (n ≤ a + 1)
  | none => true

/-- Blocks for a transcript of `n` lines, in the order they are sent. -/
structure Collected (n : Nat) (blocks : List YouBlock) : Prop where
  sorted : blocks.Pairwise fun a b => ReplyDrafts.anchorBefore a.1 b.1
  distinct : blocks.Pairwise fun a b => ∀ l, a.1 = some l → b.1 ≠ some l
  bound : ∀ b ∈ blocks, ∀ l, b.1 = some l → l < n
  /-- A block on the last line has the end for itself. -/
  alone : ∀ b ∈ blocks, b.1 = some (n - 1) → ∀ c ∈ blocks, c.1 ≠ none
  filled : ∀ b ∈ blocks, isBlankText b.2 = false

theorem filter_partition {α : Type} {p : α → Bool} {l : List α}
    (h : l.Pairwise fun a b => p a = true → p b = true) :
    l.filter (fun a => !p a) ++ l.filter p = l := by
  induction l with
  | nil => rfl
  | cons a l ih =>
      obtain ⟨hhead, hrest⟩ := List.pairwise_cons.1 h
      cases ha : p a with
      | false => simp [ha, ih hrest]
      | true =>
          have hall : ∀ b ∈ l, p b = true := fun b hb => hhead b hb ha
          have hnone : l.filter (fun a => !p a) = [] := by
            rw [List.filter_eq_nil_iff]
            intro b hb
            simp [hall b hb]
          simp [ha, hnone, List.filter_eq_self.2 hall]

section
variable {n : Nat} {blocks : List YouBlock} (h : Collected n blocks)
include h

theorem Collected.split :
    blocks.filter (fun b => !isTail n b) ++ blocks.filter (isTail n) = blocks := by
  apply filter_partition
  refine h.sorted.imp fun {a b} hab ha => ?_
  cases hb : b.1 with
  | none => simp [isTail, hb]
  | some j =>
      cases hi : a.1 with
      | none =>
          rw [hi, hb] at hab
          exact absurd hab id
      | some i =>
          rw [hi, hb] at hab
          have hle : i ≤ j := hab
          simp only [isTail, hi, hb, decide_eq_true_eq] at ha ⊢
          omega

theorem Collected.inner : Inner n (blocks.filter fun b => !isTail n b) where
  anchored b hb := by
    have htail := (List.mem_filter.1 hb).2
    cases ha : b.1 with
    | none => simp [isTail, ha] at htail
    | some a =>
        refine ⟨a, rfl, ?_⟩
        simpa [isTail, ha] using htail
  ascending := by
    have hboth := (h.sorted.and h.distinct).filter fun b => !isTail n b
    refine hboth.imp fun {a b} hab i j hi hj => ?_
    have hle : i ≤ j := by
      have hbefore := hab.1
      rwa [hi, hj] at hbefore
    have hne : i ≠ j := fun heq => hab.2 i hi (heq ▸ hj)
    omega

/-- The end has one block, on the last line, or blocks without an anchor. -/
theorem Collected.tail_cases :
    (∀ b ∈ blocks.filter (isTail n), b.1 = none) ∨
      ∃ b, blocks.filter (isTail n) = [b] ∧ b.1 = some (n - 1) := by
  by_cases hlast : ∃ b ∈ blocks, b.1 = some (n - 1)
  · right
    obtain ⟨b, hb, hanchor⟩ := hlast
    have hall : ∀ c ∈ blocks.filter (isTail n), c.1 = some (n - 1) := by
      intro c hc
      obtain ⟨hc, htail⟩ := List.mem_filter.1 hc
      cases ha : c.1 with
      | none => exact absurd ha (h.alone b hb hanchor c hc)
      | some a =>
          have hlt := h.bound c hc a ha
          simp only [isTail, ha, decide_eq_true_eq] at htail
          congr 1
          omega
    have hmem : b ∈ blocks.filter (isTail n) := by
      rw [List.mem_filter]
      refine ⟨hb, ?_⟩
      simp only [isTail, hanchor, decide_eq_true_eq]
      omega
    have hdistinct := h.distinct.filter (isTail n)
    generalize blocks.filter (isTail n) = tail at hall hmem hdistinct
    cases tail with
    | nil => cases hmem
    | cons c rest =>
        have hc := hall c List.mem_cons_self
        cases rest with
        | nil => exact ⟨c, rfl, hc⟩
        | cons d rest =>
            have hd := hall d (List.mem_cons_of_mem _ List.mem_cons_self)
            exact absurd hd ((List.pairwise_cons.1 hdistinct).1 d List.mem_cons_self _ hc)
  · left
    intro c hc
    obtain ⟨hc, htail⟩ := List.mem_filter.1 hc
    cases ha : c.1 with
    | none => rfl
    | some a =>
        have hlt := h.bound c hc a ha
        simp only [isTail, ha, decide_eq_true_eq] at htail
        have heq : a = n - 1 := by omega
        exact absurd ⟨c, hc, heq ▸ ha⟩ hlast

/-- The end is frozen first, then the lines from the last up. -/
theorem Collected.freezeOrder_eq : freezeOrder blocks =
    blocks.filter (isTail n) ++ (blocks.filter fun b => !isTail n b).reverse := by
  have hinner := h.inner
  have htail : (blocks.filter (isTail n)).Pairwise fun a b =>
      ReplyDrafts.anchorBefore b.1 a.1 := by
    rcases h.tail_cases with hnone | ⟨b, hb, -⟩
    · apply List.pairwise_of_forall_mem_list
      intro a ha b hb
      rw [hnone a ha, hnone b hb]
      trivial
    · rw [hb]
      exact List.pairwise_singleton _ _
  have hlate : ∀ b ∈ blocks.filter (isTail n), ∀ a, a + 1 < n →
      ¬ ReplyDrafts.anchorBefore b.1 (some a) := by
    intro b hb a ha hbefore
    have htail := (List.mem_filter.1 hb).2
    cases hanchor : b.1 with
    | none =>
        rw [hanchor] at hbefore
        exact hbefore
    | some i =>
        rw [hanchor] at hbefore
        have hle : i ≤ a := hbefore
        simp only [isTail, hanchor, decide_eq_true_eq] at htail
        omega
  nth_rewrite 1 [← h.split]
  generalize blocks.filter (isTail n) = tail at htail hlate
  generalize (blocks.filter fun b => !isTail n b) = inner at hinner
  induction inner with
  | nil => simpa [freezeOrder] using htail.insertionSort_eq
  | cons b inner ih =>
      obtain ⟨a, ha, hlt⟩ := hinner.anchored b List.mem_cons_self
      have hstep : freezeOrder (b :: inner ++ tail) = (freezeOrder (inner ++ tail)).orderedInsert
          (fun a b => ReplyDrafts.anchorBefore b.1 a.1) b := rfl
      rw [hstep, ih hinner.tail, orderedInsert_last, List.reverse_cons, List.append_assoc]
      intro c hc hbefore
      rw [ha] at hbefore
      rcases List.mem_append.1 hc with hc | hc
      · exact hlate c hc a hlt hbefore
      · rw [List.mem_reverse] at hc
        obtain ⟨i, hi, -⟩ := hinner.anchored c (List.mem_cons_of_mem _ hc)
        have hlater := hinner.later ha c hc i hi
        rw [hi] at hbefore
        have hle : i ≤ a := hbefore
        omega

end

/-! ### The transcript with its drafts -/

/-- The old lines and the drafts, in the order they are read in. -/
def pieces (n : Nat) (lines : List TaggedLine) (blocks : List YouBlock) :
    List (TaggedLine ⊕ YouBlock) :=
  (lines.zipIdx.flatMap fun p =>
    .inl p.1 :: ((blocks.filter fun b => !isTail n b).filter fun b => b.1 == some p.2).map .inr) ++
    (blocks.filter (isTail n)).map .inr

/-- What a piece looks like in the transcript. -/
def render (turn : TurnId) (n : Nat) : TaggedLine ⊕ YouBlock → List TaggedLine
  | .inl line => [line]
  | .inr b => if isTail n b then tailLines turn b.2 else draftLines turn b.2

/-- The old lines, without an empty one at the end that drafts take the place of. -/
def oldLines (lines : List TaggedLine) (blocks : List YouBlock) : List TaggedLine :=
  if (blocks.filter (isTail lines.length)).isEmpty then lines else base lines

/-- Drafts at the end leave an empty line of their turn below them. -/
def lastLine (turn : TurnId) (n : Nat) (blocks : List YouBlock) : List TaggedLine :=
  if (blocks.filter (isTail n)).isEmpty then [] else [([], some turn)]

theorem inr_pieces {n : Nat} {blocks : List YouBlock} (h : Collected n blocks)
    {lines : List TaggedLine} (hlines : n ≤ lines.length + 1) :
    (pieces n lines blocks).filterMap Sum.getRight? = blocks := by
  have hfrom (inner : List YouBlock) (hinner : Inner n inner) (k : Nat)
      (lines : List TaggedLine) (hk : ∀ b ∈ inner, ∀ a, b.1 = some a → k ≤ a)
      (hlines : n ≤ k + lines.length + 1) :
      ((lines.zipIdx k).flatMap fun p => (.inl p.1 : TaggedLine ⊕ YouBlock) ::
        (inner.filter fun b => b.1 == some p.2).map .inr).filterMap Sum.getRight? = inner := by
    induction lines generalizing k inner with
    | nil =>
        cases inner with
        | nil => rfl
        | cons b inner =>
            obtain ⟨a, ha, hlt⟩ := hinner.anchored b List.mem_cons_self
            have hle := hk b List.mem_cons_self a ha
            simp at hlines
            omega
    | cons line lines ih =>
        rw [List.zipIdx_cons, List.flatMap_cons, List.cons_append, List.filterMap_cons_none rfl,
          List.filterMap_append]
        have hright (l : List YouBlock) :
            (l.map (Sum.inr (α := TaggedLine))).filterMap Sum.getRight? = l := by
          simp [List.filterMap_map, Function.comp_def]
        rw [hright]
        cases inner with
        | nil => exact ih [] hinner (k + 1) (by simp) (by simp at hlines ⊢; omega)
        | cons b inner =>
            obtain ⟨a, ha, -⟩ := hinner.anchored b List.mem_cons_self
            have hlater := hinner.later ha
            have hle := hk b List.mem_cons_self a ha
            by_cases heq : a = k
            · subst heq
              have hnone : (inner.filter fun c => c.1 == some a) = [] := by
                rw [List.filter_eq_nil_iff]
                intro c hc hanchor
                have := hlater c hc a (by simpa using hanchor)
                omega
              have hrest : ((lines.zipIdx (a + 1)).flatMap fun p =>
                  (.inl p.1 : TaggedLine ⊕ YouBlock) ::
                    ((b :: inner).filter fun b => b.1 == some p.2).map .inr) =
                  (lines.zipIdx (a + 1)).flatMap fun p => .inl p.1 ::
                    (inner.filter fun b => b.1 == some p.2).map .inr := by
                apply List.flatMap_congr
                intro p hp
                have hbelow := List.le_snd_of_mem_zipIdx hp
                rw [List.filter_cons_of_neg]
                rw [ha]
                simp
                omega
              rw [hrest, ih inner hinner.tail (a + 1) (fun c hc i hi => hlater c hc i hi)
                (by simp at hlines; omega), List.filter_cons_of_pos (by simp [ha]), hnone]
              rfl
            · have hnone : ((b :: inner).filter fun c => c.1 == some k) = [] := by
                rw [List.filter_eq_nil_iff]
                intro c hc hanchor
                rcases List.mem_cons.1 hc with rfl | hc
                · rw [ha] at hanchor
                  simp at hanchor
                  omega
                · have := hlater c hc k (by simpa using hanchor)
                  omega
              rw [hnone, List.nil_append]
              apply ih (b :: inner) hinner (k + 1)
              · intro c hc i hi
                rcases List.mem_cons.1 hc with rfl | hc
                · rw [ha] at hi
                  cases hi
                  omega
                · have := hlater c hc i hi
                  omega
              · simp at hlines
                omega
  rw [pieces, List.filterMap_append]
  have hinner := hfrom _ h.inner 0 lines (fun b _ a _ => Nat.zero_le a) (by omega)
  rw [hinner]
  nth_rewrite 3 [← h.split]
  simp [List.filterMap_map, Function.comp_def]

theorem inl_pieces (n : Nat) (lines : List TaggedLine) (blocks : List YouBlock) :
    (pieces n lines blocks).filterMap Sum.getLeft? = lines := by
  have hfrom (inner : List YouBlock) (k : Nat) :
      ((lines.zipIdx k).flatMap fun p => (.inl p.1 : TaggedLine ⊕ YouBlock) ::
        (inner.filter fun b => b.1 == some p.2).map .inr).filterMap Sum.getLeft? = lines := by
    induction lines generalizing k with
    | nil => rfl
    | cons line lines ih =>
        rw [List.zipIdx_cons, List.flatMap_cons, List.filterMap_append, ih]
        simp [List.filterMap_map, Function.comp_def]
  rw [pieces, List.filterMap_append, hfrom]
  simp [List.filterMap_map, Function.comp_def]

/-- Freezing weaves the blocks into the transcript. -/
theorem freezeYouBlocks_eq {lines : List TaggedLine} (hne : lines ≠ []) {blocks : List YouBlock}
    (h : Collected lines.length blocks) (k : Nat) :
    freezeYouBlocks lines blocks k =
      (pieces lines.length (oldLines lines blocks) blocks).flatMap
        (render (.user k) lines.length) ++ lastLine (.user k) lines.length blocks := by
  have hinner := h.inner
  have hfilled : ∀ b ∈ blocks.filter (isTail lines.length), isBlankText b.2 = false :=
    fun b hb => h.filled b (List.mem_filter.1 hb).1
  -- the end
  have htail : (blocks.filter (isTail lines.length)).foldl (freezeBlock (.user k)) lines =
      withTail (.user k) lines (blocks.filter (isTail lines.length)) := by
    rw [← withTail_foldl _ hne hfilled]
    rcases h.tail_cases with hnone | ⟨b, hb, hanchor⟩
    · apply List.foldl_ext
      intro lines b hb
      exact freezeBlock_none (hnone b hb)
    · rw [hb, List.foldl_cons, List.foldl_cons, List.foldl_nil, List.foldl_nil,
        freezeBlock_some hanchor, freezeAsUserTurnAt, if_pos (by omega)]
  rw [freezeYouBlocks, h.freezeOrder_eq, List.foldl_append, htail, List.foldl_reverse]
  have hlength : lines.length ≤
      (withTail (.user k) lines (blocks.filter (isTail lines.length))).length := by
    rw [withTail]
    split
    · exact le_refl _
    · have := base_length lines
      simp
      omega
  have hbetween : Inner (withTail (.user k) lines (blocks.filter (isTail lines.length))).length
      (blocks.filter fun b => !isTail lines.length b) := by
    refine ⟨fun b hb => ?_, hinner.ascending⟩
    obtain ⟨a, ha, hlt⟩ := hinner.anchored b hb
    exact ⟨a, ha, by omega⟩
  have hweave := insertFrom_foldr (.user k)
    (withTail (.user k) lines (blocks.filter (isTail lines.length))) hbetween
  rw [hweave]
  -- the lines between
  have hlines (lines' : List TaggedLine) :
      insertFrom (.user k) 0 lines' (blocks.filter fun b => !isTail lines.length b) =
        (lines'.zipIdx.flatMap fun p => (.inl p.1 : TaggedLine ⊕ YouBlock) ::
          ((blocks.filter fun b => !isTail lines.length b).filter fun b =>
            b.1 == some p.2).map .inr).flatMap (render (.user k) lines.length) := by
    rw [insertFrom, List.flatMap_assoc]
    apply List.flatMap_congr
    intro p _
    rw [List.flatMap_cons, List.flatMap_map]
    simp only [render, List.singleton_append, List.cons.injEq, true_and]
    apply List.flatMap_congr
    intro b hb
    have hb := (List.mem_filter.1 (List.mem_filter.1 hb).1).2
    rw [if_neg (by simpa using hb)]
  have hends : ((blocks.filter (isTail lines.length)).map
      (Sum.inr (α := TaggedLine))).flatMap (render (.user k) lines.length) =
      (blocks.filter (isTail lines.length)).flatMap fun b => tailLines (.user k) b.2 := by
    rw [List.flatMap_map]
    apply List.flatMap_congr
    intro b hb
    rw [render, if_pos (List.mem_filter.1 hb).2]
  rw [pieces, List.flatMap_append, ← hlines, hends, withTail, oldLines, lastLine]
  split
  · rename_i hempty
    rw [List.isEmpty_iff.1 hempty]
    simp
  · rw [List.append_assoc, insertFrom_append, List.append_assoc]
    congr 1
    apply insertFrom_eq_self
    intro b hb i hi _ heq
    obtain ⟨a, ha, hlt⟩ := hinner.anchored b hb
    rw [ha] at heq
    cases heq
    have := base_length lines
    omega

end Freezing

end Yaldabaoth
