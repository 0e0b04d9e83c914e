import Yaldabaoth.Proofs.View.Passes

/-!
# `Yaldabaoth.Proofs.View.Rendered`: the rendered list is faithful

A rebuild with empty caches loses nothing and repeats nothing: text, tool
calls and You-blocks stand in the list once and in order, and the reverse
index finds the item of every line that the list shows.
-/

set_option autoImplicit false

namespace Yaldabaoth

namespace ViewModel

open FlatItem (isText isGroup isContent block? toolIds you?)

variable {κ β : Type}

/-! ### The reverse index -/

/-- The lines that the items show, each with the place of its item; the blocks take the ranges
in their order. -/
def placed : List (FlatItem κ β × Nat) → List (Nat × Nat) → List (Nat × Nat)
  | [], _ => []
  | (.line i, p) :: rest, ranges => (i, p) :: placed rest ranges
  | (.block _, p) :: rest, r :: ranges =>
      (List.range' r.1 (r.2 - r.1)).map (fun l => (l, p)) ++ placed rest ranges
  | _ :: rest, ranges => placed rest ranges

theorem placed_fst (items : List (FlatItem κ β × Nat)) (ranges : List (Nat × Nat)) :
    (placed items ranges).map Prod.fst = shown (items.map Prod.fst) ranges := by
  induction items generalizing ranges with
  | nil => rfl
  | cons item rest ih =>
      obtain ⟨item, p⟩ := item
      cases item with
      | block b =>
          cases ranges with
          | nil => simpa [placed, shown] using ih []
          | cons r ranges => simp [placed, shown, ih, Function.comp_def]
      | _ => simp [placed, shown, ih]

theorem foldl_set_getElem? (lines : List Nat) (p : Nat) (map : List (Option Nat)) (l : Nat) :
    (lines.foldl (fun map l => map.set l (some p)) map)[l]? =
      if l ∈ lines ∧ l < map.length then some (some p) else map[l]? := by
  induction lines generalizing map with
  | nil => simp
  | cons i lines ih =>
      rw [List.foldl_cons, ih, List.length_set]
      by_cases hl : l ∈ lines
      · by_cases hlen : l < map.length
        · simp [hl, hlen]
        · simp [hlen]
      · by_cases heq : i = l
        · subst heq
          by_cases hlen : i < map.length
          · simp [hl, hlen]
          · simp [hl, hlen]
        · simp [hl, heq, Ne.symm heq]

theorem length_foldl_set (lines : List Nat) (p : Nat) (map : List (Option Nat)) :
    (lines.foldl (fun map l => map.set l (some p)) map).length = map.length := by
  induction lines generalizing map with
  | nil => rfl
  | cons i lines ih => rw [List.foldl_cons, ih, List.length_set]

/-- Lines that the items do not show are not touched. -/
theorem mapItems_frame {n l : Nat} (items : List (FlatItem κ β × Nat)) {ranges : List (Nat × Nat)}
    (hn : ∀ r ∈ ranges, r.2 ≤ n) (map : List (Option Nat))
    (h : l ∉ (placed items ranges).map Prod.fst) : (mapItems n items ranges map)[l]? = map[l]? := by
  induction items generalizing ranges map with
  | nil => rfl
  | cons item rest ih =>
      obtain ⟨item, p⟩ := item
      cases item with
      | line i =>
          simp only [placed, List.map_cons, List.mem_cons, not_or] at h
          rw [mapItems, ih hn _ h.2, List.getElem?_set_ne (Ne.symm h.1)]
      | block b =>
          cases ranges with
          | nil => exact ih hn map h
          | cons r ranges =>
              have hr := hn r List.mem_cons_self
              simp only [placed, List.map_append, List.map_map, Function.comp_def, List.map_id',
                List.mem_append, not_or] at h
              rw [mapItems, ih (fun r hr => hn r (List.mem_cons_of_mem _ hr)) _ h.2,
                foldl_set_getElem?, Nat.min_eq_left hr, if_neg fun hboth => h.1 hboth.1]
      | _ => exact ih hn map h

/-- A line that is shown once gets the place of its item. -/
theorem mapItems_spec {n : Nat} (items : List (FlatItem κ β × Nat)) {ranges : List (Nat × Nat)}
    (hn : ∀ r ∈ ranges, r.2 ≤ n) {map : List (Option Nat)} (hlen : map.length = n)
    (hnodup : ((placed items ranges).map Prod.fst).Nodup)
    (hbound : ∀ q ∈ placed items ranges, q.1 < n) :
    ∀ q ∈ placed items ranges, (mapItems n items ranges map)[q.1]? = some (some q.2) := by
  induction items generalizing ranges map with
  | nil => simp [placed]
  | cons item rest ih =>
      obtain ⟨item, p⟩ := item
      cases item with
      | line i =>
          simp only [placed, List.map_cons, List.nodup_cons, List.mem_cons] at hnodup hbound ⊢
          rintro q (rfl | hq)
          · have hi := hbound (i, p) (.inl rfl)
            rw [mapItems, mapItems_frame rest hn _ hnodup.1, List.getElem?_set_self (by omega)]
          · exact ih hn (by rw [List.length_set, hlen]) hnodup.2 (fun q hq => hbound q (.inr hq)) q hq
      | block b =>
          cases ranges with
          | nil => exact ih hn hlen hnodup hbound
          | cons r ranges =>
              have hr := hn r List.mem_cons_self
              have hmore : ∀ r ∈ ranges, r.2 ≤ n := fun r hr => hn r (List.mem_cons_of_mem _ hr)
              simp only [placed, List.map_append, List.map_map, Function.comp_def, List.map_id',
                List.mem_append] at hnodup hbound ⊢
              obtain ⟨-, hrest, hapart⟩ := List.nodup_append.1 hnodup
              intro q hq
              rw [mapItems]
              rcases hq with hq | hq
              · obtain ⟨l, hl, rfl⟩ := List.mem_map.1 hq
                have hlt := hbound (l, p) (.inl hq)
                have hout : l ∉ (placed rest ranges).map Prod.fst := fun hin =>
                  hapart l hl l hin rfl
                rw [mapItems_frame rest hmore _ hout, foldl_set_getElem?, Nat.min_eq_left hr,
                  if_pos ⟨hl, by omega⟩]
              · exact ih hmore (by rw [length_foldl_set, hlen]) hrest
                  (fun q hq => hbound q (.inr hq)) q hq
      | _ => exact ih hn hlen hnodup hbound

theorem fillIn_getElem? {last l p : Nat} {map : List (Option Nat)} (h : map[l]? = some (some p)) :
    (fillIn last map)[l]? = some p := by
  induction map generalizing last l with
  | nil => cases h
  | cons v map ih =>
      cases l with
      | zero =>
          cases h
          rfl
      | succ l => exact ih h

/-! ### The blocks -/

theorem resolve_ranges (t : TranscriptLines) (parse : List (List Char) → Option β) :
    Ranges t.lineCount (resolve t parse) := by
  obtain ⟨hblocks, hsorted⟩ := t.detectBlockRanges_spec
  refine ⟨fun r hr => ?_, fun r hr => ?_, List.pairwise_map.2 hsorted⟩ <;>
    obtain ⟨range, hrange, rfl⟩ := List.mem_map.1 hr
  · exact (hblocks range hrange).nonempty
  · exact (hblocks range hrange).bound

theorem ahead_zero (blocks : List (ResolvedBlock β)) :
    (ahead 0 blocks).map Prod.fst = parsedRanges blocks ∧
      (ahead 0 blocks).map Prod.snd = blocks.filterMap Prod.snd := by
  have hall : (blocks.filter fun r => decide (0 ≤ r.1.1)) = blocks := by simp
  rw [ahead, hall, parsedRanges, List.map_filterMap, List.map_filterMap]
  constructor <;> congr 1 <;> funext r <;> cases r.2 <;> rfl

/-! ### The list -/

/-- The list without the insertions of the last pass. -/
def settledItems (t : TranscriptLines) (tools : ToolCalls κ t.lineCount) (s : AgentSurface)
    (parse : List (List Char) → Option β) : List (FlatItem κ β) :=
  let flat := flatLoop t tools none (resolve t parse) (List.range t.lineCount)
  let merged := mergeGroups (collapseFrom t s.protectLine none flat)
  (dropHeaders (merged ++ if s.turnPhase.isAwaiting then [.thinkingIndicator] else [])).1

section
variable (t : TranscriptLines) (tools : ToolCalls κ t.lineCount) (s : AgentSurface)
  (parse : List (List Char) → Option β)

theorem flatItems_eq : flatItems t tools s parse = insertYouBlocks t s (settledItems t tools s parse) :=
  rfl

/-- What no header, group, line, indicator or You-block has is as the first pass lays it out. -/
theorem flatItems_filter (p : FlatItem κ β → Bool) (hgroup : ∀ a ids, p (.toolGroup a ids) = false)
    (hheader : ∀ role, p (.turnHeader role) = false) (hthinking : p .thinkingIndicator = false)
    (hyou : ∀ parked, p (.youBlock parked) = false) :
    (flatItems t tools s parse).filter p =
      (collapseFrom t s.protectLine none
        (flatLoop t tools none (resolve t parse) (List.range t.lineCount))).filter p := by
  have htail : ((if s.turnPhase.isAwaiting then [.thinkingIndicator] else []) :
      List (FlatItem κ β)).filter p = [] := by
    split <;> simp [hthinking]
  have hsettled : (settledItems t tools s parse).filter p =
      (collapseFrom t s.protectLine none
        (flatLoop t tools none (resolve t parse) (List.range t.lineCount))).filter p := by
    rw [settledItems, dropHeaders_filter p hheader, List.filter_append, htail, List.append_nil,
      mergeGroups_filter p hgroup]
  rw [flatItems_eq, insertYouBlocks_eq, ← hsettled]
  split
  · rfl
  · exact insertSteps_filter p hyou _ _

theorem shown_flatItems :
    shown (flatItems t tools s parse) (parsedRanges (resolve t parse)) =
      shown (collapseFrom t s.protectLine none
        (flatLoop t tools none (resolve t parse) (List.range t.lineCount)))
        (parsedRanges (resolve t parse)) := by
  rw [← shown_filter, flatItems_filter t tools s parse isText (fun _ _ => rfl) (fun _ => rfl) rfl
    (fun _ => rfl), shown_filter]

/-- Before blank lines are dropped, all lines are shown. -/
theorem shown_flatLoop :
    shown (flatLoop t tools none (resolve t parse) (List.range t.lineCount) : List (FlatItem κ β))
      (parsedRanges (resolve t parse)) = List.range t.lineCount := by
  have hranges := resolve_ranges t parse
  have htext := textLoop_shown (κ := κ) hranges (Nat.zero_add t.lineCount)
  have hzero : inside 0 (resolve t parse) = 0 := inside_eq_zero fun r _ => Nat.zero_le _
  rw [(ahead_zero _).1, hzero] at htext
  rw [← shown_filter, flatLoop_isText, List.range_eq_range', htext]
  rfl

theorem blocks_flatItems :
    (flatItems t tools s parse).filterMap block? = (resolve t parse).filterMap Prod.snd := by
  have hpasses := flatItems_filter t tools s parse (fun item => (block? item).isSome)
    (fun _ _ => rfl) (fun _ => rfl) rfl fun _ => rfl
  rw [collapseFrom_filter t _ _ fun _ => rfl] at hpasses
  calc (flatItems t tools s parse).filterMap block?
    _ = (flatLoop t tools none (resolve t parse) (List.range t.lineCount)).filterMap block? := by
        rw [← filterMap_kept, hpasses, filterMap_kept]
    _ = (textLoop (resolve t parse) (List.range t.lineCount) :
          List (FlatItem κ β)).filterMap block? := by
        rw [← blocks_filter, flatLoop_isText]
    _ = (resolve t parse).filterMap Prod.snd := by
        rw [List.range_eq_range', textLoop_blocks (resolve_ranges t parse) (Nat.zero_add _),
          (ahead_zero _).2]

/-- The calls are listed line by line. -/
theorem toolIds_flatItems :
    (flatItems t tools s parse).flatMap toolIds =
      (List.range t.lineCount).flatMap (toolsAtLine t tools) := by
  have hsettled : (settledItems t tools s parse).flatMap toolIds =
      (List.range t.lineCount).flatMap (toolsAtLine t tools) := by
    have htail : ((if s.turnPhase.isAwaiting then [.thinkingIndicator] else []) :
        List (FlatItem κ β)).flatMap toolIds = [] := by
      split <;> rfl
    rw [settledItems, ← toolIds_filter, dropHeaders_filter isGroup fun _ => rfl, toolIds_filter,
      List.flatMap_append, htail, List.append_nil, mergeGroups_toolIds, ← toolIds_filter,
      collapseFrom_filter t _ isGroup fun _ => rfl, toolIds_filter, flatLoop_toolIds]
  rw [flatItems_eq, insertYouBlocks_eq, ← hsettled]
  split
  · rfl
  · rw [← toolIds_filter, insertSteps_filter isGroup fun _ => rfl, toolIds_filter]

/-- The list before headers are dropped. -/
def mergedItems : List (FlatItem κ β) :=
  mergeGroups (collapseFrom t s.protectLine none
    (flatLoop t tools none (resolve t parse) (List.range t.lineCount))) ++
    if s.turnPhase.isAwaiting then [.thinkingIndicator] else []

/-- No pass but the last makes a You-block. -/
theorem mergedItems_you : ∀ item ∈ mergedItems t tools s parse, you? item = none := by
  have hnone : (mergedItems t tools s parse).filter (fun item => (you? item).isSome) = [] := by
    rw [mergedItems, List.filter_append, mergeGroups_filter _ fun _ _ => rfl,
      collapseFrom_filter t _ _ fun _ => rfl, flatLoop_you]
    split <;> rfl
  intro item hitem
  simpa using List.filter_eq_nil_iff.1 hnone item hitem

theorem settledItems_apart : GroupsApart (settledItems t tools s parse) := by
  apply dropHeaders_apart
  apply List.isChain_append.2
  refine ⟨mergeGroups_apart _, ?_, ?_⟩
  · split
    · exact .singleton _
    · exact .nil
  · intro a _ b hb hboth
    split at hb
    · cases hb
      cases hboth.2
    · cases hb

theorem settledItems_filled : HeadersFilled (settledItems t tools s parse) :=
  dropHeaders_filled (mergedItems_you t tools s parse)

theorem settledItems_noYou : (settledItems t tools s parse).filterMap you? = [] := by
  rw [← filterMap_kept, settledItems, dropHeaders_filter _ fun _ => rfl,
    List.filter_eq_nil_iff.2 fun item hitem => by
      rw [mergedItems_you t tools s parse item hitem]
      decide]
  rfl

/-- The You-blocks of an idle worksheet. -/
def youBlocks (s : AgentSurface) : List (Option Nat) :=
  if s.chatbox || s.turnPhase.isAwaiting then []
  else (if s.inlineYouBlockActive then [none] else []) ++ (List.range s.parked.length).map some

theorem flatItems_you : ((flatItems t tools s parse).filterMap you?).Perm (youBlocks s) := by
  rw [flatItems_eq, insertYouBlocks_eq, youBlocks]
  split
  · rw [settledItems_noYou]
  · have hsteps := insertSteps_you (inserts t s (settledItems t tools s parse))
      (settledItems t tools s parse)
    rw [settledItems_noYou, List.append_nil] at hsteps
    refine hsteps.trans ?_
    rw [inserts]
    refine ((List.perm_insertionSort _ _).map Prod.snd).trans ?_
    rw [List.map_append, List.map_map]
    have hparked : s.parked.zipIdx.map (fun p => some p.2) =
        (List.range s.parked.length).map some := by
      rw [List.range_eq_range', ← List.zipIdx_map_snd 0 s.parked, List.map_map]
      rfl
    split <;> simpa [Function.comp_def] using hparked ▸ List.Perm.refl _

/-! ### Tool calls -/

/-- One call stands on a line above that of another, or was announced before it. -/
def Precedes (a b : κ) : Prop :=
  ∃ la lb, toolLine t tools a = some la ∧ toolLine t tools b = some lb ∧
    (la < lb ∨ la = lb ∧ [a, b].Sublist tools.order)

theorem mem_toolsAtLine {id : κ} {line : Nat} :
    id ∈ toolsAtLine t tools line ↔ id ∈ tools.order ∧ toolLine t tools id = some line := by
  simp [toolsAtLine]

theorem toolLine_lt {id : κ} {line : Nat} (h : toolLine t tools id = some line) :
    line < t.lineCount := by
  obtain ⟨anchored, hanchor, rfl⟩ := Option.map_eq_some_iff.1 h
  cases anchored with
  | none => exact Nat.sub_one_lt t.lines_pos.ne'
  | some line => exact tools.anchor_bounds id line hanchor

theorem toolIds_precede :
    ((List.range t.lineCount).flatMap (toolsAtLine t tools)).Pairwise (Precedes t tools) := by
  rw [List.pairwise_flatMap]
  constructor
  · intro line _
    rw [List.pairwise_iff_forall_sublist]
    intro a b hab
    have ha := (mem_toolsAtLine t tools).1 (hab.subset List.mem_cons_self)
    have hb := (mem_toolsAtLine t tools).1 (hab.subset (List.mem_cons_of_mem _ List.mem_cons_self))
    exact ⟨line, line, ha.2, hb.2, .inr ⟨rfl, hab.trans List.filter_sublist⟩⟩
  · apply List.pairwise_lt_range.imp
    intro la lb hlt a ha b hb
    exact ⟨la, lb, ((mem_toolsAtLine t tools).1 ha).2, ((mem_toolsAtLine t tools).1 hb).2, .inl hlt⟩

theorem Precedes.ne {a b : κ} (h : Precedes t tools a b) : a ≠ b := by
  rintro rfl
  obtain ⟨la, lb, ha, hb, hlt | ⟨-, hsub⟩⟩ := h
  · rw [ha] at hb
    cases hb
    exact lt_irrefl _ hlt
  · have hnodup := tools.order_nodup.sublist hsub
    simp at hnodup

theorem mem_toolIds {id : κ} :
    id ∈ (List.range t.lineCount).flatMap (toolsAtLine t tools) ↔
      id ∈ tools.order ∧ (tools.anchor id).isSome = true := by
  simp only [List.mem_flatMap, List.mem_range, mem_toolsAtLine]
  constructor
  · rintro ⟨line, -, hid, hline⟩
    refine ⟨hid, ?_⟩
    obtain ⟨anchored, hanchor, -⟩ := Option.map_eq_some_iff.1 hline
    rw [hanchor]
    rfl
  · rintro ⟨hid, hanchor⟩
    obtain ⟨anchored, hanchor⟩ := Option.isSome_iff_exists.1 hanchor
    have hline : toolLine t tools id = some (anchored.getD (t.lineCount - 1)) := by
      rw [toolLine, hanchor]
      rfl
    exact ⟨_, toolLine_lt t tools hline, hid, hline⟩

/-! ### The whole list -/

/-- What a list of items has to be for it to show the transcript, given the blocks. -/
structure Shows (items : List (FlatItem κ β)) (resolved : List (ResolvedBlock β)) : Prop where
  /-- Lines are shown once, as themselves or in one block, and in order. -/
  lines_ascend : ((placed items.zipIdx (parsedRanges resolved)).map Prod.fst).Pairwise (· < ·)
  lines_bound : ∀ q ∈ placed items.zipIdx (parsedRanges resolved), q.1 < t.lineCount
  /-- A line that is not blank is shown. -/
  lines_shown : ∀ l < t.lineCount, t.isBlank l = false →
    l ∈ (placed items.zipIdx (parsedRanges resolved)).map Prod.fst
  /-- The blocks are those that the ranges were made into. -/
  blocks : items.filterMap block? = resolved.filterMap Prod.snd
  /-- The anchored calls are listed once, by line and then by arrival. -/
  tools_nodup : (items.flatMap toolIds).Nodup
  tools_mem : ∀ id, id ∈ items.flatMap toolIds ↔ id ∈ tools.order ∧ (tools.anchor id).isSome = true
  tools_ordered : (items.flatMap toolIds).Pairwise (Precedes t tools)
  groups_apart : GroupsApart items
  headers_filled : HeadersFilled items
  /-- The reverse index finds the item of a line that is shown. -/
  index : ∀ q ∈ placed items.zipIdx (parsedRanges resolved),
    (buildLineToItem items resolved t.lineCount)[q.1]? = some q.2
  you_blocks : (items.filterMap you?).Perm (youBlocks s)

/-- A rebuild with empty caches loses and repeats nothing; the ranges that it finds follow one
another, lie in frozen lines, and a fence lies in one frozen range. -/
theorem rebuild_shows :
    Shows t tools s (flatItems t tools s parse) (resolve t parse) ∧
      (∀ r ∈ t.detectBlockRanges, t.BlockRange 0 r) ∧
      t.detectBlockRanges.Pairwise fun a b => a.2 ≤ b.1 := by
  refine ⟨?_, t.detectBlockRanges_spec⟩
  have hplaced : (placed (flatItems t tools s parse).zipIdx (parsedRanges (resolve t parse))).map
      Prod.fst = shown (flatItems t tools s parse) (parsedRanges (resolve t parse)) := by
    rw [placed_fst, List.zipIdx_map_fst]
  obtain ⟨hsub, hkept⟩ := collapseFrom_shown t s.protectLine none
    (flatLoop t tools none (resolve t parse) (List.range t.lineCount))
    (parsedRanges (resolve t parse))
  rw [← shown_flatItems, shown_flatLoop] at hsub
  rw [← shown_flatItems, shown_flatLoop] at hkept
  rw [← hplaced] at hsub hkept
  have hascend := List.pairwise_lt_range.sublist hsub
  have hbound : ∀ q ∈ placed (flatItems t tools s parse).zipIdx (parsedRanges (resolve t parse)),
      q.1 < t.lineCount := fun q hq =>
    List.mem_range.1 (hsub.subset (List.mem_map_of_mem hq))
  have hids := toolIds_flatItems t tools s parse
  have hprecede := toolIds_precede t tools
  rw [← hids] at hprecede
  constructor
  case lines_ascend => exact hascend
  case lines_bound => exact hbound
  case lines_shown => exact fun l hl hblank => hkept l (List.mem_range.2 hl) hblank
  case blocks => exact blocks_flatItems t tools s parse
  case tools_nodup => exact hprecede.imp fun h => h.ne t tools
  case tools_mem =>
    intro id
    rw [hids]
    exact mem_toolIds t tools
  case tools_ordered => exact hprecede
  case groups_apart =>
    rw [flatItems_eq, insertYouBlocks_eq]
    split
    · exact settledItems_apart t tools s parse
    · exact insertSteps_apart _ (settledItems_apart t tools s parse)
  case headers_filled =>
    rw [flatItems_eq, insertYouBlocks_eq]
    split
    · exact settledItems_filled t tools s parse
    · have hfilled := settledItems_filled t tools s parse
      exact insertSteps_filled (inserts_sorted t s _) (inserts_free hfilled) hfilled
  case index =>
    intro q hq
    apply fillIn_getElem?
    have hranges : ∀ r ∈ parsedRanges (resolve t parse), r.2 ≤ t.lineCount := by
      intro r hr
      obtain ⟨block, hblock, hr⟩ := List.mem_filterMap.1 hr
      obtain ⟨b, -, rfl⟩ := Option.map_eq_some_iff.1 hr
      exact (resolve_ranges t parse).bound block hblock
    exact mapItems_spec _ hranges List.length_replicate (hascend.imp fun h => ne_of_lt h) hbound q hq
  case you_blocks => exact flatItems_you t tools s parse

end

end ViewModel

end Yaldabaoth
