import Mathlib.Data.List.Sort
import Yaldabaoth.Model.AnchorMaps

/-!
# `Yaldabaoth.Proofs.Buffer.Anchors`: the anchors follow their lines

`shift_for_insert` and `shift_for_delete` update two maps entry by entry.
`lowered` and `settled` are the inductions over these loops: what has been
done to the entries so far never takes a line that another entry still
has. From them `shiftForInsert_spec` and `shiftForDelete_spec` say where
each anchor is afterwards, with the line functions of `Model.Editor`.

`Graphs` connects the two maps to the one graph of `LineAnchorStore`, and
`anchors_kept` is about every run of allocations, shifts and metadata.
-/

set_option autoImplicit false

namespace Yaldabaoth

open LineAnchorStore (insertedLine deletedLine)

namespace AnchorMaps

/-! ### The entries in order -/

theorem mem_entriesFrom {st : AnchorMaps} {first line : Nat} {a : LineAnchor} :
    (line, a) ∈ st.entriesFrom first ↔ st.byLine.lookup line = some a ∧ first ≤ line := by
  rw [entriesFrom, List.mem_insertionSort, List.mem_filter, decide_eq_true_eq]
  refine and_congr_left fun _ => ?_
  rw [List.mem_map]
  constructor
  · rintro ⟨e, he, heq⟩
    cases heq
    exact AList.mem_lookup_iff.2 he
  · intro h
    exact ⟨⟨line, a⟩, AList.mem_lookup_iff.1 h, rfl⟩

/-- No line is there twice. -/
theorem entriesFrom_sorted (st : AnchorMaps) (first : Nat) :
    (st.entriesFrom first).Pairwise fun e f => e.1 < f.1 := by
  have hle : (st.entriesFrom first).Pairwise fun e f => e.1 ≤ f.1 := by
    have : Std.Total fun e f : Nat × LineAnchor => e.1 ≤ f.1 := ⟨fun e f => Nat.le_total e.1 f.1⟩
    have : IsTrans (Nat × LineAnchor) fun e f => e.1 ≤ f.1 := ⟨fun _ _ _ => Nat.le_trans⟩
    exact List.pairwise_insertionSort _ _
  have hkeys : ((st.byLine.entries.map fun e => (e.1, e.2)).map Prod.fst).Nodup := by
    rw [List.map_map]
    exact st.byLine.keys_nodup
  have hnodup : ((st.entriesFrom first).map Prod.fst).Nodup := by
    refine ((List.perm_insertionSort _ _).map Prod.fst).nodup_iff.2 ?_
    exact hkeys.sublist (List.filter_sublist.map Prod.fst)
  have hne : (st.entriesFrom first).Pairwise fun e f => e.1 ≠ f.1 := List.pairwise_map.1 hnodup
  exact (hle.and hne).imp fun h => Nat.lt_of_le_of_ne h.1 h.2

/-! ### Inserted line breaks -/

/-- The loop of `shift_for_insert`, from the last line up: an entry always goes to a line that is
free. -/
theorem lowered {nl : Nat} (hnl : 0 < nl) {lines : List Nat}
    (hdesc : lines.Pairwise fun i j => j < i) (st : AnchorMaps)
    (h : Map.Inverse st.byLine st.byAnchor)
    (hthere : ∀ k ∈ lines, ∃ a, st.byLine.lookup k = some a)
    (hroom : ∀ line a, st.byLine.lookup line = some a → line ∉ lines →
      ∀ k ∈ lines, line < k ∨ k + nl < line) :
    ∃ st', lines.foldlM (lower nl) st = some st' ∧ st'.nextId = st.nextId ∧
      Map.Inverse st'.byLine st'.byAnchor ∧
      ∀ a, st'.lineFor a =
        (st.lineFor a).map fun line => if line ∈ lines then line + nl else line := by
  induction lines generalizing st with
  | nil =>
      refine ⟨st, rfl, rfl, h, fun a => ?_⟩
      simp
  | cons k rest ih =>
      obtain ⟨hfirst, hrest⟩ := List.pairwise_cons.1 hdesc
      obtain ⟨a, ha⟩ := hthere k (by simp)
      have hback : st.byAnchor.lookup a = some k := (h k a).1 ha
      -- The lines at or below the freed one are taken by entries that went down before.
      have hfree : st.byLine.lookup (k + nl) = none := by
        cases hb : st.byLine.lookup (k + nl) with
        | none => rfl
        | some b =>
            have hnot : k + nl ∉ k :: rest := by
              intro hmem
              rcases List.mem_cons.1 hmem with heq | hmem
              · omega
              · have hlt := hfirst _ hmem
                omega
            have hroomK := hroom _ b hb hnot k (by simp)
            omega
      obtain ⟨st', hrun, hid, hinverse, hlines⟩ := ih hrest
        { st with
          byLine := (st.byLine.erase k).insert (k + nl) a
          byAnchor := st.byAnchor.insert a (k + nl) }
        (h.move ha hfree)
        (by
          intro j hj
          have hjk := hfirst j hj
          obtain ⟨b, hb⟩ := hthere j (List.mem_cons_of_mem _ hj)
          refine ⟨b, ?_⟩
          dsimp only
          rw [Map.get_insert, if_neg (by omega), Map.get_erase, if_neg (by omega)]
          exact hb)
        (by
          intro line b hb hnot j hj
          have hjk := hfirst j hj
          dsimp only at hb
          rw [Map.get_insert] at hb
          split at hb
          · omega
          · rw [Map.get_erase] at hb
            split at hb
            · cases hb
            · next hne => exact hroom line b hb (by simp [hne, hnot]) j (by simp [hj]))
      refine ⟨st', ?_, hid, hinverse, fun b => ?_⟩
      · rw [List.foldlM_cons]
        simp only [lower, ha]
        exact hrun
      · rw [hlines]
        dsimp only [lineFor]
        rw [Map.get_insert]
        split
        · next heq =>
            subst heq
            have hnot : k + nl ∉ rest := fun hmem => by
              have hlt := hfirst _ hmem
              omega
            simp [hback, hnot]
        · next hne =>
            cases hb : st.byAnchor.lookup b with
            | none => rfl
            | some line =>
                have hline : line ≠ k := by
                  rintro rfl
                  rw [← h, ha] at hb
                  exact hne (Option.some.inj hb).symm
                simp [hline]

theorem shiftForInsert_spec {st : AnchorMaps} (h : Map.Inverse st.byLine st.byAnchor)
    (line col nl : Nat) :
    ∃ st', st.shiftForInsert line col nl = some st' ∧ st'.nextId = st.nextId ∧
      Map.Inverse st'.byLine st'.byAnchor ∧
      ∀ a, st'.lineFor a = (st.lineFor a).map (insertedLine line col nl) := by
  by_cases hnl : nl = 0
  · subst hnl
    refine ⟨st, rfl, rfl, h, fun a => ?_⟩
    have hid : insertedLine line col 0 = id := by
      funext i
      simp [insertedLine]
    rw [hid, Option.map_id]
    rfl
  · rw [shiftForInsert, if_neg hnl]
    dsimp only
    generalize hfirst : (if col = 0 then line else line + 1) = first
    have hmem : ∀ k, k ∈ ((st.entriesFrom first).map Prod.fst).reverse ↔
        ∃ a, st.byLine.lookup k = some a ∧ first ≤ k := by
      intro k
      rw [List.mem_reverse, List.mem_map]
      constructor
      · rintro ⟨e, he, rfl⟩
        exact ⟨e.2, mem_entriesFrom.1 he⟩
      · rintro ⟨a, ha⟩
        exact ⟨(k, a), mem_entriesFrom.2 ha, rfl⟩
    obtain ⟨st', hrun, hid, hinverse, hlines⟩ := lowered (Nat.pos_of_ne_zero hnl)
      (List.pairwise_reverse.2 (List.pairwise_map.2 (st.entriesFrom_sorted first))) st h
      (fun k hk => by
        obtain ⟨a, ha, -⟩ := (hmem k).1 hk
        exact ⟨a, ha⟩)
      (fun i a ha hnot k hk => by
        obtain ⟨-, -, hle⟩ := (hmem k).1 hk
        have hlt : ¬ first ≤ i := fun hle => hnot ((hmem i).2 ⟨a, ha, hle⟩)
        omega)
    refine ⟨st', hrun, hid, hinverse, fun a => ?_⟩
    rw [hlines]
    cases ha : st.lineFor a with
    | none => rfl
    | some i =>
        have hi := (h i a).2 ha
        simp only [Option.map_some, insertedLine, hfirst]
        by_cases hle : first ≤ i
        · rw [if_pos ((hmem i).2 ⟨a, hi, hle⟩), if_pos hle]
        · rw [if_neg fun hk => hle ((hmem i).1 hk).choose_spec.2, if_neg hle]

/-! ### Deleted line breaks -/

/-- The first loop of `shift_for_delete`. -/
theorem cleared (st : AnchorMaps) (es : List (Nat × LineAnchor)) :
    let st' := es.foldl (fun st e => { st with byLine := st.byLine.erase e.1 }) st
    st'.nextId = st.nextId ∧ st'.byAnchor = st.byAnchor ∧
      ∀ line, st'.byLine.lookup line =
        if line ∈ es.map Prod.fst then none else st.byLine.lookup line := by
  induction es generalizing st with
  | nil => exact ⟨rfl, rfl, fun line => by simp⟩
  | cons e es ih =>
      obtain ⟨hid, hback, hlines⟩ := ih { st with byLine := st.byLine.erase e.1 }
      refine ⟨hid, hback, fun line => ?_⟩
      rw [List.foldl_cons, hlines, Map.get_erase]
      simp only [List.map_cons, List.mem_cons]
      by_cases he : line = e.1
      · rw [if_pos he, if_pos (Or.inl he)]
        exact ite_self _
      · rw [if_neg he]
        simp only [he, false_or]

/-- The second loop of `shift_for_delete`, from the first line down. The entries `es` are still to
come: only the way back knows them. -/
theorem settled {last nl : Nat} (hlast : nl ≤ last) {es : List (Nat × LineAnchor)}
    (hsorted : es.Pairwise fun e f => e.1 < f.1) (st : AnchorMaps) (dropped : List LineAnchor)
    (hpending : ∀ e ∈ es, st.byAnchor.lookup e.2 = some e.1)
    (hinverse : ∀ line a, st.byLine.lookup line = some a ↔
      st.byAnchor.lookup a = some line ∧ (line, a) ∉ es)
    (hroom : ∀ e ∈ es, last < e.1 → ∀ line a, st.byLine.lookup line = some a → line < e.1 - nl) :
    let r := es.foldl (settle last nl) (st, dropped)
    r.1.nextId = st.nextId ∧ Map.Inverse r.1.byLine r.1.byAnchor ∧
      (∀ a, r.1.lineFor a = (st.lineFor a).bind fun line =>
        if (line, a) ∈ es then if line ≤ last then none else some (line - nl) else some line) ∧
      ∀ a, a ∈ r.2 ↔ a ∈ dropped ∨ ∃ line ≤ last, (line, a) ∈ es := by
  induction es generalizing st dropped with
  | nil =>
      refine ⟨rfl, fun line a => ?_, fun a => ?_, fun a => ?_⟩
      · simpa using hinverse line a
      · simp [lineFor]
      · simp
  | cons e rest ih =>
      obtain ⟨line, a⟩ := e
      obtain ⟨hfirst, hrest⟩ := List.pairwise_cons.1 hsorted
      have hline : st.byAnchor.lookup a = some line := hpending (line, a) (by simp)
      -- An entry that follows is of another anchor.
      have hother : ∀ f ∈ rest, f.2 ≠ a := by
        intro f hf heq
        have hagain := hpending f (List.mem_cons_of_mem _ hf)
        rw [heq, hline] at hagain
        have hlt := hfirst f hf
        have hsame := Option.some.inj hagain
        omega
      have hmem : ∀ i b, b ≠ a → ((i, b) ∈ (line, a) :: rest ↔ (i, b) ∈ rest) := by
        intro i b hb
        simp [hb]
      have hnot : ∀ i, (i, a) ∉ rest := fun i hi => hother _ hi rfl
      rw [List.foldl_cons]
      by_cases hconsumed : line ≤ last
      · obtain ⟨hid, hboth, hlines, hdropped⟩ := ih hrest
          { st with byAnchor := st.byAnchor.erase a } (dropped ++ [a])
          (by
            intro f hf
            dsimp only
            rw [Map.get_erase, if_neg (hother f hf)]
            exact hpending f (List.mem_cons_of_mem _ hf))
          (by
            intro i b
            dsimp only
            rw [hinverse, Map.get_erase]
            by_cases hb : b = a
            · subst hb
              rw [if_pos rfl, hline]
              constructor
              · rintro ⟨heq, hout⟩
                cases heq
                exact absurd (List.mem_cons_self ..) hout
              · rintro ⟨heq, -⟩
                cases heq
            · rw [if_neg hb, hmem i b hb])
          (fun f hf => hroom f (List.mem_cons_of_mem _ hf))
        have hstep : settle last nl (st, dropped) (line, a) =
            ({ st with byAnchor := st.byAnchor.erase a }, dropped ++ [a]) := by
          simp [settle, hconsumed]
        rw [hstep]
        refine ⟨hid, hboth, fun b => ?_, fun b => ?_⟩
        · rw [hlines]
          dsimp only [lineFor]
          rw [Map.get_erase]
          by_cases hb : b = a
          · subst hb
            simp [hline, hconsumed]
          · simp only [if_neg hb, hmem _ b hb]
        · rw [hdropped]
          by_cases hb : b = a
          · subst hb
            simp only [List.mem_append, List.mem_singleton, or_true, true_or, true_iff]
            exact .inr ⟨line, hconsumed, by simp⟩
          · simp [hb]
      · have hlt : last < line := Nat.lt_of_not_le hconsumed
        obtain ⟨hid, hboth, hlines, hdropped⟩ := ih hrest
          { st with
            byLine := st.byLine.insert (line - nl) a
            byAnchor := st.byAnchor.insert a (line - nl) } dropped
          (by
            intro f hf
            dsimp only
            rw [Map.get_insert, if_neg (hother f hf)]
            exact hpending f (List.mem_cons_of_mem _ hf))
          (by
            intro i b
            dsimp only
            rw [Map.get_insert, Map.get_insert]
            by_cases hi : i = line - nl <;> by_cases hb : b = a
            · subst hi hb
              simp [hnot]
            · subst hi
              rw [if_pos rfl, if_neg hb]
              constructor
              · intro heq
                exact absurd (Option.some.inj heq).symm hb
              · rintro ⟨hback, hout⟩
                have hthere := (hinverse (line - nl) b).2 ⟨hback, by rwa [hmem _ b hb]⟩
                exact absurd (hroom (line, a) (by simp) hlt _ b hthere) (Nat.lt_irrefl _)
            · subst hb
              rw [if_neg hi, if_pos rfl, hinverse, hline]
              constructor
              · rintro ⟨heq, hout⟩
                cases heq
                exact absurd (List.mem_cons_self ..) hout
              · rintro ⟨heq, -⟩
                exact absurd (Option.some.inj heq).symm hi
            · rw [if_neg hi, if_neg hb, hinverse, hmem i b hb])
          (by
            intro f hf hflt i b hb
            have hless := hfirst f hf
            dsimp only at hb hless
            rw [Map.get_insert] at hb
            split at hb
            · omega
            · exact hroom f (List.mem_cons_of_mem _ hf) hflt i b hb)
        have hstep : settle last nl (st, dropped) (line, a) =
            ({ st with
                byLine := st.byLine.insert (line - nl) a
                byAnchor := st.byAnchor.insert a (line - nl) }, dropped) := by
          simp [settle, hconsumed]
        rw [hstep]
        refine ⟨hid, hboth, fun b => ?_, fun b => ?_⟩
        · rw [hlines]
          dsimp only [lineFor]
          rw [Map.get_insert]
          by_cases hb : b = a
          · subst hb
            simp [hline, hconsumed, hnot]
          · simp only [if_neg hb, hmem _ b hb]
        · rw [hdropped]
          by_cases hb : b = a
          · subst hb
            refine or_congr_right ?_
            constructor
            · rintro ⟨i, -, hi⟩
              exact absurd hi (hnot i)
            · rintro ⟨i, hi, hmemI⟩
              rcases List.mem_cons.1 hmemI with heq | hmemI
              · cases heq
                exact absurd hi hconsumed
              · exact absurd hmemI (hnot i)
          · simp only [hmem _ b hb]

theorem shiftForDelete_spec {st : AnchorMaps} (h : Map.Inverse st.byLine st.byAnchor)
    (line col nl : Nat) :
    let r := st.shiftForDelete line col nl
    r.1.nextId = st.nextId ∧ Map.Inverse r.1.byLine r.1.byAnchor ∧
      (∀ a, r.1.lineFor a = (st.lineFor a).bind (deletedLine line col nl)) ∧
      ∀ a, a ∈ r.2 ↔ ∃ i, st.lineFor a = some i ∧ deletedLine line col nl i = none := by
  by_cases hnl : nl = 0
  · subst hnl
    refine ⟨rfl, h, fun a => ?_, fun a => ?_⟩
    · have hid : deletedLine line col 0 = some := by
        funext i
        simp [deletedLine]
      rw [hid, Option.bind_fun_some]
      rfl
    · simp [shiftForDelete, deletedLine]
  · rw [shiftForDelete, if_neg hnl]
    dsimp only
    generalize hfirst : (if col = 0 then line else line + 1) = first
    have hle : first ≤ line + 1 := by
      rw [← hfirst]
      split <;> omega
    obtain ⟨hidC, hbackC, hlinesC⟩ := cleared st (st.entriesFrom first)
    have hkeys : ∀ i, i ∈ (st.entriesFrom first).map Prod.fst ↔
        ∃ a, st.byLine.lookup i = some a ∧ first ≤ i := by
      intro i
      rw [List.mem_map]
      constructor
      · rintro ⟨e, he, rfl⟩
        exact ⟨e.2, mem_entriesFrom.1 he⟩
      · rintro ⟨a, ha⟩
        exact ⟨(i, a), mem_entriesFrom.2 ha, rfl⟩
    have hmem : ∀ i a, st.lineFor a = some i →
        ((i, a) ∈ st.entriesFrom first ↔ first ≤ i) := by
      intro i a ha
      rw [mem_entriesFrom]
      exact and_iff_right ((h i a).2 ha)
    generalize hcleared : (st.entriesFrom first).foldl
      (fun st e => { st with byLine := st.byLine.erase e.1 }) st = st₁ at *
    obtain ⟨hid, hboth, hlines, hdropped⟩ := settled
      (Nat.le_add_left nl line) (st.entriesFrom_sorted first) st₁ []
      (by
        intro e he
        rw [hbackC]
        exact (h e.1 e.2).1 (mem_entriesFrom.1 he).1)
      (by
        intro i a
        rw [hlinesC, hbackC, ← h]
        by_cases hi : i ∈ (st.entriesFrom first).map Prod.fst
        · rw [if_pos hi]
          constructor
          · intro heq
            cases heq
          · rintro ⟨ha, hout⟩
            obtain ⟨-, -, hge⟩ := (hkeys i).1 hi
            exact absurd (mem_entriesFrom.2 ⟨ha, hge⟩) hout
        · rw [if_neg hi]
          refine ⟨fun ha => ⟨ha, fun hin => ?_⟩, fun hboth => hboth.1⟩
          exact hi (List.mem_map.2 ⟨_, hin, rfl⟩))
      (by
        intro e he hlt i a ha
        rw [hlinesC] at ha
        split at ha
        · cases ha
        · next hout =>
            have hless : ¬ first ≤ i := fun hge => hout ((hkeys i).2 ⟨a, ha, hge⟩)
            omega)
    refine ⟨hid.trans hidC, hboth, fun a => ?_, fun a => ?_⟩
    · rw [hlines, lineFor, hbackC]
      cases ha : st.lineFor a with
      | none =>
          rw [lineFor] at ha
          rw [ha]
          rfl
      | some i =>
          have hin := hmem i a ha
          rw [lineFor] at ha
          rw [ha]
          simp only [Option.bind_some, hin, deletedLine, hfirst, if_neg hnl]
          by_cases hge : first ≤ i
          · rw [if_pos hge, if_neg (Nat.not_lt.2 hge)]
          · rw [if_neg hge, if_pos (Nat.lt_of_not_le hge)]
    · rw [hdropped]
      simp only [List.not_mem_nil, false_or]
      constructor
      · rintro ⟨i, hi, hin⟩
        obtain ⟨ha, hge⟩ := mem_entriesFrom.1 hin
        refine ⟨i, (h i a).1 ha, ?_⟩
        simp only [deletedLine, hfirst, if_neg hnl, if_neg (Nat.not_lt.2 hge), if_pos hi]
      · rintro ⟨i, ha, hnone⟩
        simp only [deletedLine, hfirst, if_neg hnl] at hnone
        split at hnone
        · cases hnone
        · next hge =>
            split at hnone
            · next hi => exact ⟨i, hi, (hmem i a ha).2 (Nat.le_of_not_lt hge)⟩
            · cases hnone

end AnchorMaps

/-! ### The graph of the maps -/

namespace LineAnchorStore

theorem lookup_iff {entries : List (Nat × LineAnchor)}
    (h : entries.Pairwise fun p q => p.1 < q.1) {line : Nat} {a : LineAnchor} :
    entries.lookup line = some a ↔ (line, a) ∈ entries := by
  induction entries with
  | nil => simp
  | cons e rest ih =>
      obtain ⟨k, b⟩ := e
      obtain ⟨hfirst, hrest⟩ := List.pairwise_cons.1 h
      rw [List.lookup_cons, List.mem_cons]
      by_cases hk : line = k
      · subst hk
        have hnot : (line, a) ∉ rest := fun hmem => Nat.lt_irrefl _ (hfirst (line, a) hmem)
        simp [hnot, eq_comm]
      · have hbeq : (line == k) = false := beq_false_of_ne hk
        rw [hbeq]
        simp [hk, ih hrest]

theorem anchorAt_eq_some {g : LineAnchorStore} {line : Nat} {a : LineAnchor} :
    g.anchorAt line = some a ↔ (line, a) ∈ g.byLine := lookup_iff g.sorted

theorem lineFor_eq_some {g : LineAnchorStore} {line : Nat} {a : LineAnchor} :
    g.lineFor a = some line ↔ (line, a) ∈ g.byLine := by
  constructor
  · intro h
    obtain ⟨p, hp, rfl⟩ := Option.map_eq_some_iff.1 h
    have ha : p.2 = a := by simpa using List.find?_some hp
    rw [← ha]
    exact List.mem_of_find?_eq_some hp
  · intro h
    cases hp : g.byLine.find? fun p => decide (p.2 = a) with
    | none => exact absurd (List.find?_eq_none.1 hp _ h) (by simp)
    | some p =>
        have ha : p.2 = a := by simpa using List.find?_some hp
        have hline := g.injective p (List.mem_of_find?_eq_some hp) _ h ha
        rw [lineFor, hp]
        exact congrArg some hline

theorem lineFor_relocate (g : LineAnchorStore) (keep : Nat → Option Nat)
    (hmono : ∀ i j i' j', i < j → keep i = some i' → keep j = some j' → i' < j')
    (a : LineAnchor) : (g.relocate keep hmono).lineFor a = (g.lineFor a).bind keep := by
  ext line'
  rw [lineFor_eq_some, Option.bind_eq_some_iff]
  show (line', a) ∈ g.byLine.filterMap _ ↔ _
  rw [List.mem_filterMap]
  constructor
  · rintro ⟨p, hp, heq⟩
    obtain ⟨i, hi, heq⟩ := Option.map_eq_some_iff.1 heq
    cases heq
    exact ⟨p.1, lineFor_eq_some.2 hp, hi⟩
  · rintro ⟨i, hi, hkeep⟩
    refine ⟨(i, a), lineFor_eq_some.1 hi, ?_⟩
    rw [hkeep]
    rfl

/-- A line that has no anchor gets the next one. -/
theorem lineFor_withNew {g : LineAnchorStore} {line : Nat} (h : g.anchorAt line = none)
    (a : LineAnchor) :
    (g.withNew line).lineFor a = if a = ⟨g.nextId⟩ then some line else g.lineFor a := by
  have hnot : ∀ b, (line, b) ∉ g.byLine := by
    intro b hb
    rw [anchorAt_eq_some.2 hb] at h
    cases h
  have hfresh : ∀ i, (i, ⟨g.nextId⟩) ∉ g.byLine := fun i hi =>
    Nat.lt_irrefl _ (g.issued _ hi)
  ext i
  rw [lineFor_eq_some]
  show (i, a) ∈ g.byLine.filter _ ++ (line, _) :: g.byLine.filter _ ↔ _
  simp only [List.mem_append, List.mem_filter, List.mem_cons, decide_eq_true_eq, Prod.mk.injEq]
  split
  · next heq =>
      subst heq
      simp [hfresh, eq_comm]
  · next hne =>
      rw [lineFor_eq_some]
      constructor
      · rintro (⟨hi, -⟩ | ⟨-, heq⟩ | ⟨hi, -⟩)
        · exact hi
        · exact absurd heq hne
        · exact hi
      · intro hi
        rcases Nat.lt_trichotomy i line with hlt | rfl | hlt
        · exact .inl ⟨hi, hlt⟩
        · exact absurd hi (hnot a)
        · exact .inr (.inr ⟨hi, hlt⟩)

end LineAnchorStore

namespace AnchorMaps

/-- The store of `Model.Editor` has the same anchors on the same lines. -/
structure Graphs (st : AnchorMaps) (g : LineAnchorStore) : Prop where
  nextId : st.nextId = g.nextId
  inverse : Map.Inverse st.byLine st.byAnchor
  lines : ∀ a, st.lineFor a = g.lineFor a

theorem Graphs.anchorAt {st : AnchorMaps} {g : LineAnchorStore} (h : Graphs st g) (line : Nat) :
    st.byLine.lookup line = g.anchorAt line := by
  ext a
  rw [h.inverse, LineAnchorStore.anchorAt_eq_some, ← LineAnchorStore.lineFor_eq_some, ← h.lines]
  rfl

theorem graphs_empty : Graphs .empty .empty where
  nextId := rfl
  inverse := Map.inverse_empty
  lines _ := rfl

theorem Graphs.allocate {st : AnchorMaps} {g : LineAnchorStore} (h : Graphs st g) (line : Nat) :
    (st.allocate line).1 = (g.allocate line).1 ∧
      Graphs (st.allocate line).2 (g.allocate line).2 := by
  rw [AnchorMaps.allocate, LineAnchorStore.allocate, ← h.anchorAt]
  cases hline : st.byLine.lookup line with
  | some a => exact ⟨rfl, h⟩
  | none =>
      have hnone : g.anchorAt line = none := by rw [← h.anchorAt, hline]
      have hfresh : st.byAnchor.lookup ⟨st.nextId⟩ = none := by
        show st.lineFor _ = none
        rw [h.lines, h.nextId]
        cases hi : g.lineFor ⟨g.nextId⟩ with
        | none => rfl
        | some i => exact absurd (g.issued _ (LineAnchorStore.lineFor_eq_some.1 hi)) (Nat.lt_irrefl _)
      refine ⟨congrArg _ h.nextId, congrArg Nat.succ h.nextId, h.inverse.insert hline hfresh,
        fun a => ?_⟩
      rw [LineAnchorStore.lineFor_withNew hnone, ← h.nextId, ← h.lines]
      exact Map.get_insert _ _ _ _

theorem Graphs.shiftForInsert {st : AnchorMaps} {g : LineAnchorStore} (h : Graphs st g)
    (line col nl : Nat) :
    ∃ st', st.shiftForInsert line col nl = some st' ∧ Graphs st' (g.shiftForInsert line col nl) := by
  obtain ⟨st', hrun, hid, hinverse, hlines⟩ := shiftForInsert_spec h.inverse line col nl
  refine ⟨st', hrun, hid.trans h.nextId, hinverse, fun a => ?_⟩
  rw [hlines, h.lines, LineAnchorStore.shiftForInsert, LineAnchorStore.lineFor_relocate]
  exact Option.map_eq_bind

theorem Graphs.shiftForDelete {st : AnchorMaps} {g : LineAnchorStore} (h : Graphs st g)
    (line col nl : Nat) :
    Graphs (st.shiftForDelete line col nl).1 (g.shiftForDelete line col nl) ∧
      ∀ a, a ∈ (st.shiftForDelete line col nl).2 ↔ a ∈ g.droppedByDelete line col nl := by
  obtain ⟨hid, hinverse, hlines, hdropped⟩ := shiftForDelete_spec h.inverse line col nl
  refine ⟨⟨hid.trans h.nextId, hinverse, fun a => ?_⟩, fun a => ?_⟩
  · rw [hlines, h.lines, LineAnchorStore.shiftForDelete, LineAnchorStore.lineFor_relocate]
  · rw [hdropped, LineAnchorStore.droppedByDelete, List.mem_map]
    constructor
    · rintro ⟨i, hi, hnone⟩
      rw [h.lines] at hi
      exact ⟨(i, a), List.mem_filter.2 ⟨LineAnchorStore.lineFor_eq_some.1 hi, by simp [hnone]⟩, rfl⟩
    · rintro ⟨p, hp, rfl⟩
      obtain ⟨hmem, hnone⟩ := List.mem_filter.1 hp
      refine ⟨p.1, ?_, by simpa using hnone⟩
      rw [h.lines]
      exact LineAnchorStore.lineFor_eq_some.2 hmem

end AnchorMaps

/-! ### The lines of the text -/

namespace TextRows

variable {α : Type}

/-- The text of a row is found again on another row after an edit at a position. -/
def Carried (editLine editCol line line' : Nat) (rows rows' : List (List α)) : Prop :=
  ∃ text text', rows[line]? = some text ∧ rows'[line']? = some text' ∧
    (line ≠ editLine → text' = text) ∧
    (line = editLine → editCol = 0 → text <:+ text') ∧
    (line = editLine → 0 < editCol → text.take editCol <+: text')

theorem carried_insert {rows : List (List α)} {line : Nat} (hline : line < rows.length) (col : Nat)
    (first : List α) (mid : List (List α)) (last : List α) {i : Nat} (hi : i < rows.length) :
    Carried line col i (insertedLine line col (mid.length + 1) i) rows
      (insertRows rows line col first mid last) := by
  have hrow : rows.getD line [] = rows[line] := by
    rw [List.getD_eq_getElem?_getD, List.getElem?_eq_getElem hline]
    rfl
  have htake : (rows.take line).length = line := List.length_take_of_le (Nat.le_of_lt hline)
  refine ⟨rows[i], ?_⟩
  rw [insertRows, hrow]
  rcases Nat.lt_trichotomy i line with hlt | rfl | hlt
  · -- The rows above do not move.
    have hsame : insertedLine line col (mid.length + 1) i = i := by
      simp only [insertedLine]
      split <;> split <;> omega
    refine ⟨rows[i], List.getElem?_eq_getElem hi, ?_, fun _ => rfl, by omega, by omega⟩
    rw [hsame, List.getElem?_append_left (by omega), List.getElem?_take_of_lt hlt]
    exact List.getElem?_eq_getElem hi
  · by_cases hcol : col = 0
    · -- A row that is broken at its start stands whole behind what came in.
      subst hcol
      have hdown : insertedLine i 0 (mid.length + 1) i = i + (mid.length + 1) := by
        simp [insertedLine]
      refine ⟨last ++ rows[i], List.getElem?_eq_getElem hi, ?_, by omega,
        fun _ _ => List.suffix_append _ _, by omega⟩
      rw [hdown, List.getElem?_append_right (by omega), htake]
      simp
    · have hstays : insertedLine i col (mid.length + 1) i = i := by
        simp [insertedLine, hcol]
      refine ⟨rows[i].take col ++ first, List.getElem?_eq_getElem hi, ?_, by omega, by omega,
        fun _ _ => List.prefix_append _ _⟩
      rw [hstays, List.getElem?_append_right (by omega), htake]
      simp
  · have hdown : insertedLine line col (mid.length + 1) i = i + (mid.length + 1) := by
      simp only [insertedLine]
      split <;> split <;> omega
    refine ⟨rows[i], List.getElem?_eq_getElem hi, ?_, fun _ => rfl, by omega, by omega⟩
    have hindex : i + (mid.length + 1) - line = (i - line - 1) + mid.length + 1 + 1 := by omega
    rw [hdown, List.getElem?_append_right (by omega), htake, hindex, List.getElem?_cons_succ,
      List.getElem?_append_right (by omega)]
    have hlast : i - line - 1 + mid.length + 1 - mid.length = (i - line - 1) + 1 := by omega
    rw [hlast, List.getElem?_cons_succ, List.getElem?_drop]
    have hback : line + 1 + (i - line - 1) = i := by omega
    rw [hback]
    exact List.getElem?_eq_getElem hi

theorem carried_delete {rows : List (List α)} {line nl : Nat} (hnl : 0 < nl)
    (hline : line + nl < rows.length) (col stopCol : Nat) {i i' : Nat} (hi : i < rows.length)
    (hkept : deletedLine line col nl i = some i') :
    Carried line col i i' rows (deleteRows rows line col nl stopCol) := by
  have htake : (rows.take line).length = line := List.length_take_of_le (by omega)
  have hrow : rows.getD line [] = rows[line] := by
    rw [List.getD_eq_getElem?_getD, List.getElem?_eq_getElem (by omega)]
    rfl
  refine ⟨rows[i], ?_⟩
  rw [deleteRows, hrow]
  simp only [deletedLine, if_neg (Nat.ne_of_gt hnl)] at hkept
  rcases Nat.lt_trichotomy i line with hlt | rfl | hlt
  · have hsame : i' = i := by
      rw [if_pos (by split <;> omega)] at hkept
      exact (Option.some.inj hkept).symm
    subst hsame
    refine ⟨rows[i'], List.getElem?_eq_getElem hi, ?_, fun _ => rfl, by omega, by omega⟩
    rw [List.getElem?_append_left (by omega), List.getElem?_take_of_lt hlt]
    exact List.getElem?_eq_getElem hi
  · -- The row of the deletion keeps its anchor only with a start of its text.
    have hcol : 0 < col ∧ i' = i := by
      rcases Nat.eq_zero_or_pos col with rfl | hpos
      · simp at hkept
      · rw [if_pos (by split <;> omega)] at hkept
        exact ⟨hpos, (Option.some.inj hkept).symm⟩
    obtain ⟨hpos, rfl⟩ := hcol
    refine ⟨_, List.getElem?_eq_getElem hi, ?_, by omega, by omega,
      fun _ _ => List.prefix_append _ ((rows.getD (i' + nl) []).drop stopCol)⟩
    rw [List.getElem?_append_right (by omega), htake]
    simp
  · have hup : line + nl < i ∧ i' = i - nl := by
      rw [if_neg (by split <;> omega)] at hkept
      split at hkept
      · cases hkept
      · exact ⟨by omega, (Option.some.inj hkept).symm⟩
    obtain ⟨hbelow, rfl⟩ := hup
    refine ⟨rows[i], List.getElem?_eq_getElem hi, ?_, fun _ => rfl, by omega, by omega⟩
    have hindex : i - nl - line = (i - nl - line - 1) + 1 := by omega
    rw [List.getElem?_append_right (by omega), htake, hindex, List.getElem?_cons_succ,
      List.getElem?_drop]
    have hback : line + nl + 1 + (i - nl - line - 1) = i := by omega
    rw [hback]
    exact List.getElem?_eq_getElem hi

end TextRows

/-! ### Runs -/

namespace AnchorTable

variable {τ μ : Type}

/-- What is kept for other anchors stays. -/
theorem metadata_dropAnchors (dropped : List LineAnchor) (table : AnchorTable τ μ) :
    (dropped.foldl dropAnchor table).anchors = table.anchors ∧
      ∀ t a, ((dropped.foldl dropAnchor table).metadata t).lookup a =
        if a ∈ dropped then none else (table.metadata t).lookup a := by
  induction dropped generalizing table with
  | nil => exact ⟨rfl, fun t a => by simp⟩
  | cons b rest ih =>
      obtain ⟨hanchors, hmetadata⟩ := ih (table.dropAnchor b)
      refine ⟨hanchors, fun t a => ?_⟩
      rw [List.foldl_cons, hmetadata]
      show (if a ∈ rest then none else ((table.metadata t).erase b).lookup a) = _
      rw [Map.get_erase]
      by_cases ha : a = b <;> simp [ha]

end AnchorTable

namespace AnchorRun

variable {τ μ : Type}

/-- What holds in every run. -/
structure Kept (run : AnchorRun τ μ) : Prop where
  inverse : Map.Inverse run.table.anchors.byLine run.table.anchors.byAnchor
  live : ∀ a line, run.table.anchors.lineFor a = some line → a ∈ run.made ∧ a ∉ run.dropped
  numbered : ∀ a ∈ run.made, a.id < run.table.anchors.nextId
  distinct : run.made.Nodup
  gone : ∀ a ∈ run.dropped, a ∈ run.made
  known : ∀ t a v, (run.table.metadata t).lookup a = some v → a ∈ run.made

theorem Kept.fresh {run : AnchorRun τ μ} (h : run.Kept) :
    (⟨run.table.anchors.nextId⟩ : LineAnchor) ∉ run.made := fun hmem =>
  Nat.lt_irrefl _ (h.numbered _ hmem)

theorem kept_start : (start : AnchorRun τ μ).Kept where
  inverse := Map.inverse_empty
  live a line h := by cases h
  numbered a h := by cases h
  distinct := List.nodup_nil
  gone a h := by cases h
  known t a v h := by cases h

variable [DecidableEq τ]

theorem Kept.anchorForLine {run run' : AnchorRun τ μ} (h : run.Kept) {line : Nat}
    (hstep : run.step (.anchorForLine line) = some run') : run'.Kept := by
  simp only [step, Option.some.injEq] at hstep
  subst hstep
  rw [AnchorMaps.allocate]
  cases hline : run.table.anchors.byLine.lookup line with
  | some a => exact h
  | none =>
      have hnew : run.table.anchors.byAnchor.lookup ⟨run.table.anchors.nextId⟩ = none := by
        cases hi : run.table.anchors.byAnchor.lookup ⟨run.table.anchors.nextId⟩ with
        | none => rfl
        | some i => exact absurd (h.live _ i hi).1 h.fresh
      refine ⟨h.inverse.insert hline hnew, fun a i hi => ?_, fun a ha => ?_, ?_, fun a ha => ?_,
        fun t a v hv => ?_⟩
      · dsimp only [AnchorMaps.lineFor] at hi
        rw [Map.get_insert] at hi
        split at hi
        · next heq =>
            subst heq
            exact ⟨by simp, fun hdropped => h.fresh (h.gone _ hdropped)⟩
        · obtain ⟨hmade, hkept⟩ := h.live a i hi
          exact ⟨by simp [hmade], hkept⟩
      · dsimp only at ha ⊢
        rcases List.mem_append.1 ha with ha | ha
        · exact Nat.lt_succ_of_lt (h.numbered a ha)
        · rw [List.mem_singleton.1 ha]
          exact Nat.lt_succ_self _
      · refine List.nodup_append.2 ⟨h.distinct, List.nodup_singleton _, fun a ha b hb => ?_⟩
        rw [List.mem_singleton.1 hb]
        rintro rfl
        exact h.fresh ha
      · exact List.mem_append_left _ (h.gone a ha)
      · exact List.mem_append_left _ (h.known t a v hv)

theorem Kept.shiftForInsert {run run' : AnchorRun τ μ} (h : run.Kept) {line col nl : Nat}
    (hstep : run.step (.shiftForInsert line col nl) = some run') : run'.Kept := by
  obtain ⟨anchors, hrun, hid, hinverse, hlines⟩ :=
    AnchorMaps.shiftForInsert_spec h.inverse line col nl
  simp only [step, hrun, Option.map_some, Option.some.injEq] at hstep
  subst hstep
  refine ⟨hinverse, fun a i hi => ?_, fun a ha => ?_, h.distinct, h.gone, h.known⟩
  · dsimp only at hi
    rw [hlines] at hi
    obtain ⟨j, hj, -⟩ := Option.map_eq_some_iff.1 hi
    exact h.live a j hj
  · dsimp only
    rw [hid]
    exact h.numbered a ha

theorem Kept.shiftForDelete {run run' : AnchorRun τ μ} (h : run.Kept) {line col nl : Nat}
    (hstep : run.step (.shiftForDelete line col nl) = some run') : run'.Kept := by
  obtain ⟨hid, hinverse, hlines, hdropped⟩ :=
    AnchorMaps.shiftForDelete_spec h.inverse line col nl
  simp only [step, AnchorTable.shiftForDelete, Option.some.injEq] at hstep
  subst hstep
  obtain ⟨hanchors, hmetadata⟩ := AnchorTable.metadata_dropAnchors
    (run.table.anchors.shiftForDelete line col nl).2
    { run.table with anchors := (run.table.anchors.shiftForDelete line col nl).1 }
  refine ⟨?_, fun a i hi => ?_, fun a ha => ?_, h.distinct, fun a ha => ?_, fun t a v hv => ?_⟩
  · dsimp only
    rw [hanchors]
    exact hinverse
  · dsimp only at hi ⊢
    rw [hanchors, hlines] at hi
    obtain ⟨j, hj, hkept⟩ := Option.bind_eq_some_iff.1 hi
    obtain ⟨hmade, hout⟩ := h.live a j hj
    refine ⟨hmade, fun hmem => ?_⟩
    rcases List.mem_append.1 hmem with hmem | hmem
    · exact hout hmem
    · -- An anchor has one line, which is kept or consumed.
      obtain ⟨j', hj', hnone⟩ := (hdropped a).1 hmem
      rw [hj] at hj'
      cases hj'
      rw [hkept] at hnone
      cases hnone
  · dsimp only
    rw [hanchors, hid]
    exact h.numbered a ha
  · rcases List.mem_append.1 ha with ha | ha
    · exact h.gone a ha
    · obtain ⟨j, hj, -⟩ := (hdropped a).1 ha
      exact (h.live a j hj).1
  · dsimp only at hv
    rw [hmetadata] at hv
    split at hv
    · cases hv
    · exact h.known t a v hv

theorem Kept.insertMetadata {run run' : AnchorRun τ μ} (h : run.Kept) {t : τ} {a : LineAnchor}
    {v : μ} (hstep : run.step (.insertMetadata t a v) = some run') : run'.Kept := by
  rw [step] at hstep
  split at hstep
  · next hmade =>
      cases hstep
      refine ⟨h.inverse, h.live, h.numbered, h.distinct, h.gone, fun t' b w hw => ?_⟩
      dsimp only [AnchorTable.insertMetadata] at hw
      by_cases ht : t' = t
      · subst ht
        rw [Function.update_self, Map.get_insert] at hw
        split at hw
        · next heq =>
            rw [heq]
            exact hmade
        · exact h.known _ b w hw
      · rw [Function.update_of_ne ht] at hw
        exact h.known _ b w hw
  · cases hstep

theorem kept_of_reachable {run : AnchorRun τ μ} (h : (machine τ μ).Reachable run) : run.Kept :=
  h.invariant
    (fun run hstart => by
      cases hstart
      exact kept_start)
    fun run act run' hkept _ hstep => by
      cases act with
      | anchorForLine line => exact hkept.anchorForLine hstep
      | shiftForInsert line col nl => exact hkept.shiftForInsert hstep
      | shiftForDelete line col nl => exact hkept.shiftForDelete hstep
      | insertMetadata t a v => exact hkept.insertMetadata hstep

/-- What the store of `Model.Editor` does where the two maps take a step. -/
def follow (g : LineAnchorStore) : AnchorAct τ μ → LineAnchorStore
  | .anchorForLine line => (g.allocate line).2
  | .shiftForInsert line col nl => g.shiftForInsert line col nl
  | .shiftForDelete line col nl => g.shiftForDelete line col nl
  | .insertMetadata _ _ _ => g

theorem graphs_step {run run' : AnchorRun τ μ} {g : LineAnchorStore} {act : AnchorAct τ μ}
    (h : run.table.anchors.Graphs g) (hstep : run.step act = some run') :
    run'.table.anchors.Graphs (follow g act) := by
  cases act with
  | anchorForLine line =>
      simp only [step, Option.some.injEq] at hstep
      subst hstep
      exact (h.allocate line).2
  | shiftForInsert line col nl =>
      obtain ⟨st, hst, hgraphs⟩ := h.shiftForInsert line col nl
      simp only [step, hst, Option.map_some, Option.some.injEq] at hstep
      subst hstep
      exact hgraphs
  | shiftForDelete line col nl =>
      simp only [step, AnchorTable.shiftForDelete, Option.some.injEq] at hstep
      subst hstep
      -- what is kept for the dropped anchors goes, and the maps stay
      have hanchors := (AnchorTable.metadata_dropAnchors
        (run.table.anchors.shiftForDelete line col nl).2
        { run.table with anchors := (run.table.anchors.shiftForDelete line col nl).1 }).1
      dsimp only
      rw [hanchors]
      exact (h.shiftForDelete line col nl).1
  | insertMetadata t a v =>
      simp only [step, Option.ite_none_right_eq_some] at hstep
      obtain ⟨-, hstep⟩ := hstep
      cases hstep
      exact h

theorem graphs_run {acts : List (AnchorAct τ μ)} {run run' : AnchorRun τ μ} {g : LineAnchorStore}
    (h : run.table.anchors.Graphs g) (hrun : (machine τ μ).run run acts = some run') :
    run'.table.anchors.Graphs (acts.foldl follow g) := by
  induction acts generalizing run g with
  | nil =>
      cases hrun
      exact h
  | cons act rest ih =>
      obtain ⟨next, hnext, hrest⟩ := Option.bind_eq_some_iff.1 hrun
      exact ih (graphs_step h hnext) hrest

/-- Along every run the two maps are those of the store of `Model.Editor` that the same calls were
made on: a line has the same anchor and an anchor the same line, and the next call gives the same
anchor, shifts without failing, and drops the same anchors. -/
theorem maps_refine_store {acts : List (AnchorAct τ μ)} {run : AnchorRun τ μ}
    (hrun : (machine τ μ).run .start acts = some run) :
    (∀ line, run.table.anchors.byLine.lookup line = (acts.foldl follow .empty).anchorAt line) ∧
    (∀ a, run.table.anchors.lineFor a = (acts.foldl follow .empty).lineFor a) ∧
    (∀ line, (run.table.anchors.allocate line).1 = ((acts.foldl follow .empty).allocate line).1) ∧
    (∀ line col nl, ((run.step (.shiftForInsert line col nl)).isSome = true)) ∧
    ∀ line col nl a, a ∈ (run.table.shiftForDelete line col nl).2 ↔
      a ∈ (acts.foldl follow .empty).droppedByDelete line col nl := by
  have hgraphs := graphs_run AnchorMaps.graphs_empty hrun
  refine ⟨hgraphs.anchorAt, hgraphs.lines, fun line => (hgraphs.allocate line).1,
    fun line col nl => ?_, fun line col nl => (hgraphs.shiftForDelete line col nl).2⟩
  obtain ⟨st, hst, -⟩ := hgraphs.shiftForInsert line col nl
  simp [step, hst]

/-- In every run the two maps are inverse and no anchor is made twice; a shift never fails, and
the anchors that it keeps are on the rows that their text moved to; a dropped anchor is on no line,
and neither what was kept for it nor anything for a new anchor is read. -/
theorem anchors_kept {α : Type} {run : AnchorRun τ μ} (h : (machine τ μ).Reachable run) :
    Map.Inverse run.table.anchors.byLine run.table.anchors.byAnchor ∧
    run.made.Nodup ∧
    (∀ line col nl, (run.table.anchors.shiftForInsert line col nl).isSome = true) ∧
    (∀ (rows : List (List α)) line col first mid last, line < rows.length →
      ∀ anchors, run.table.anchors.shiftForInsert line col (mid.length + 1) = some anchors →
        ∀ a i, run.table.anchors.lineFor a = some i → i < rows.length →
          ∃ i', anchors.lineFor a = some i' ∧
            TextRows.Carried line col i i' rows (TextRows.insertRows rows line col first mid last)) ∧
    (∀ (rows : List (List α)) line col nl stopCol, 0 < nl → line + nl < rows.length →
      ∀ a i', (run.table.shiftForDelete line col nl).1.anchors.lineFor a = some i' →
        ∃ i, run.table.anchors.lineFor a = some i ∧
          (i < rows.length →
            TextRows.Carried line col i i' rows (TextRows.deleteRows rows line col nl stopCol))) ∧
    (∀ a ∈ run.dropped, run.table.anchors.lineFor a = none ∧
      ∀ line, run.table.anchors.byLine.lookup line ≠ some a) ∧
    (∀ line col nl, ∀ a ∈ (run.table.shiftForDelete line col nl).2, ∀ t,
      ((run.table.shiftForDelete line col nl).1.metadata t).lookup a = none) ∧
    (∀ line, run.table.anchors.byLine.lookup line = none →
      ∀ t, (run.table.metadata t).lookup (run.table.anchors.allocate line).1 = none) ∧
    ∀ t line v, run.table.lineMeta t line = some v →
      ∃ a, a ∉ run.dropped ∧ run.table.anchors.byLine.lookup line = some a ∧
        (run.table.metadata t).lookup a = some v := by
  have hkept := kept_of_reachable h
  refine ⟨hkept.inverse, hkept.distinct, fun line col nl => ?_, ?_, ?_, fun a ha => ?_, ?_, ?_, ?_⟩
  · obtain ⟨anchors, hrun, -⟩ := AnchorMaps.shiftForInsert_spec hkept.inverse line col nl
    rw [hrun]
    rfl
  · intro rows line col first mid last hline anchors hrun a i hi hin
    obtain ⟨anchors', hrun', -, -, hlines⟩ :=
      AnchorMaps.shiftForInsert_spec hkept.inverse line col (mid.length + 1)
    rw [hrun, Option.some.injEq] at hrun'
    subst hrun'
    refine ⟨_, ?_, TextRows.carried_insert hline col first mid last hin⟩
    rw [hlines, hi]
    rfl
  · intro rows line col nl stopCol hnl hline a i' hi'
    obtain ⟨-, -, hlines, -⟩ := AnchorMaps.shiftForDelete_spec hkept.inverse line col nl
    rw [AnchorTable.shiftForDelete] at hi'
    rw [(AnchorTable.metadata_dropAnchors _ _).1, hlines] at hi'
    obtain ⟨i, hi, hsome⟩ := Option.bind_eq_some_iff.1 hi'
    exact ⟨i, hi, fun hin => TextRows.carried_delete hnl hline col stopCol hin hsome⟩
  · have hnone : run.table.anchors.lineFor a = none := by
      cases hi : run.table.anchors.lineFor a with
      | none => rfl
      | some i => exact absurd ha (hkept.live a i hi).2
    refine ⟨hnone, fun line hline => ?_⟩
    have hback := (hkept.inverse line a).1 hline
    rw [AnchorMaps.lineFor, hback] at hnone
    cases hnone
  · intro line col nl a ha t
    rw [AnchorTable.shiftForDelete] at ha ⊢
    rw [(AnchorTable.metadata_dropAnchors _ _).2, if_pos ha]
  · intro line hline t
    rw [AnchorMaps.allocate, hline]
    cases hv : (run.table.metadata t).lookup ⟨run.table.anchors.nextId⟩ with
    | none => rfl
    | some v => exact absurd (hkept.known t _ v hv) hkept.fresh
  · intro t line v hv
    obtain ⟨a, ha, hv⟩ := Option.bind_eq_some_iff.1 hv
    exact ⟨a, (hkept.live a line ((hkept.inverse line a).1 ha)).2, ha, hv⟩

/-- Three anchored lines with a value each; the first is pushed down, the others are deleted. -/
def sampleActs : List (AnchorAct Unit Nat) :=
  [.anchorForLine 0, .anchorForLine 1, .anchorForLine 4, .insertMetadata () ⟨0⟩ 10,
    .insertMetadata () ⟨1⟩ 11, .shiftForInsert 0 0 2, .shiftForDelete 2 3 4, .anchorForLine 3]

theorem anchors_kept_sample :
    ∃ run, (machine Unit Nat).run .start sampleActs = some run ∧
      run.made = [⟨0⟩, ⟨1⟩, ⟨2⟩, ⟨3⟩] ∧ run.dropped = [⟨1⟩, ⟨2⟩] ∧ run.made.Nodup ∧
      ∀ t line v, run.table.lineMeta t line = some v →
        ∃ a, a ∉ run.dropped ∧ run.table.anchors.byLine.lookup line = some a ∧
          (run.table.metadata t).lookup a = some v := by
  have hrun : ((machine Unit Nat).run .start sampleActs).map (fun run => (run.made, run.dropped)) =
      some ([⟨0⟩, ⟨1⟩, ⟨2⟩, ⟨3⟩], [⟨1⟩, ⟨2⟩]) := by decide
  obtain ⟨run, hrun, hboth⟩ := Option.map_eq_some_iff.1 hrun
  obtain ⟨hmade, hdropped⟩ := Prod.mk.inj hboth
  have hkept := anchors_kept (α := Char) (Machine.reachable_of_run rfl hrun)
  obtain ⟨-, hnodup, -, -, -, -, -, -, hread⟩ := hkept
  exact ⟨run, hrun, hmade, hdropped, hnodup, hread⟩

theorem maps_refine_store_sample :
    ((machine Unit Nat).run .start sampleActs).bind (fun run => run.table.anchors.lineFor ⟨0⟩) =
      some 2 := by
  obtain ⟨run, hrun⟩ := Option.isSome_iff_exists.1
    (show ((machine Unit Nat).run .start sampleActs).isSome = true by decide)
  obtain ⟨-, hline, -⟩ := maps_refine_store hrun
  rw [hrun, Option.bind_some, hline]
  decide

end AnchorRun

end Yaldabaoth
