import Yaldabaoth.Model.Keybind

/-!
# `Yaldabaoth.Proofs.Keys.Keystrokes`: what becomes of every key

Within the timeout, the keys that were typed are count digits, the keys of
actions, discarded keys and the keys that are still pending, in this order
of typing (`keys_accounted`). The bookkeeping is done feed by feed:
`Account` says of the segments so far, the matcher and what is still to be
fed that together they are what was typed.

The count of an action is what was typed directly before it only as long
as no key is left unbound while a count is pending (`Spoils`): such a key
goes, but the count stays.
-/

set_option autoImplicit false

namespace Yaldabaoth

namespace Keybind

namespace KeybindManager

/-! ### Feeding key by key -/

section feed

variable (b : Bindings) (now : Nat)

@[simp] theorem feedKeys_nil (s : KeybindManager) : feedKeys b now s [] = s := by
  rw [feedKeys]

theorem feedKeys_append (s : KeybindManager) (keys more : List KeyPress) :
    feedKeys b now s (keys ++ more) = feedKeys b now (feedKeys b now s keys) more := by
  induction s, keys using feedKeys.induct b now with
  | case1 s => rw [feedKeys_nil, List.nil_append]
  | case2 s press keys ih =>
      rw [List.cons_append, feedKeys, feedKeys, ← List.append_assoc, ih]

theorem feedKeys_eq_foldl (s : KeybindManager) (keys : List KeyPress) :
    feedKeys b now s keys = keys.foldl (feedKey b now) s := by
  induction keys generalizing s with
  | nil => exact feedKeys_nil b now s
  | cons press keys ih =>
      rw [← List.singleton_append, feedKeys_append, ih]
      rfl

/-- The loop of the source: what a broken prefix gives back is fed key by
key. -/
theorem feedKey_eq (s : KeybindManager) (press : KeyPress) : feedKey b now s press =
    (feedStep b now s press).2.foldl (feedKey b now) (feedStep b now s press).1 := by
  rw [feedKey, feedKeys, List.append_nil, feedKeys_eq_foldl]

end feed

/-! ### Segments -/

inductive Segment where
  | digit (press : KeyPress)
  | action (keys : List KeyPress) (name : String) (count : Option Nat)
  | discarded (press : KeyPress)

namespace Segment

def keys : Segment → List KeyPress
  | digit press => [press]
  | action keys _ _ => keys
  | discarded press => [press]

def resolved : Segment → Option (String × Option Nat)
  | action _ name count => some (name, count)
  | _ => none

end Segment

def keysOf (segs : List Segment) : List KeyPress := segs.flatMap Segment.keys

/-- The digits that were typed last. -/
def lastDigits (segs : List Segment) : List KeyPress :=
  segs.foldl (fun digits seg => match seg with
    | .digit press => digits ++ [press]
    | _ => []) []

/-- The number that the digits say, if there are any. -/
def countOf (digits : List KeyPress) : Option Nat :=
  digits.foldl (fun count press => match digit press with
    | some d => some (extendCount count d)
    | none => count) none

/-- No sequence can be completed any more that starts with these keys. -/
structure Dead (b : Bindings) (keys : List KeyPress) : Prop where
  unbound : ∀ start, start ≠ [] → start <+: keys → b.isBound start = false
  ended : b.isStart keys = false

/-- Where the typed keys went: `pending` still waits. -/
structure Accounted (b : Bindings) (typed pending : List KeyPress)
    (actions : List (String × Option Nat)) (segs : List Segment) : Prop where
  split : typed = keysOf segs ++ pending
  waits : pending ≠ [] → b.isStart pending = true
  actions : segs.filterMap Segment.resolved = actions
  digits : ∀ press, .digit press ∈ segs → digit press ≠ none
  bound : ∀ keys name count, .action keys name count ∈ segs → actionOf b keys = some name
  counted : ∀ before after keys name count,
    segs = before ++ .action keys name count :: after → count = countOf (lastDigits before)
  discarded : ∀ before after press, segs = before ++ .discarded press :: after →
    b.single.lookup press = none ∧
      ∀ seq ∈ b.multi.keys, seq.head? = some press →
        ¬ seq <+: press :: (keysOf after ++ pending) ∧
          ¬ press :: (keysOf after ++ pending) <+: seq

/-- A key that is fed alone and goes, although a count is pending or a
sequence of this one key is bound. -/
def Spoils (b : Bindings) (s : KeybindManager) (press : KeyPress) : Prop :=
  s.matcher.pending = [] ∧ s.countDigit press = none ∧ b.single.lookup press = none ∧
    (b.isBound [press] = true ∨ s.pendingCount ≠ none ∧ b.isStart [press] = false)

/-! ### One feed -/

theorem isStart_iff {b : Bindings} {keys : List KeyPress} : b.isStart keys = true ↔
    ∃ seq ∈ b.multi.keys, keys.length < seq.length ∧ keys <+: seq := by
  rw [Bindings.isStart, List.any_eq_true]
  refine exists_congr fun seq => and_congr_right fun _ => ?_
  rw [Bool.and_eq_true, decide_eq_true_eq, List.isPrefixOf_iff_prefix]

theorem isBound_of_mem {b : Bindings} {keys : List KeyPress} (h : keys ∈ b.multi.keys) :
    b.isBound keys = true := by
  rw [Bindings.isBound]
  exact AList.lookup_isSome.2 (AList.mem_keys.2 h)

/-- Whatever is typed behind dead keys completes nothing. -/
theorem Dead.none_left {b : Bindings} {keys : List KeyPress} (h : Dead b keys)
    {seq : List KeyPress} (hseq : seq ∈ b.multi.keys) (hne : seq ≠ []) (more : List KeyPress) :
    ¬ seq <+: keys ++ more ∧ ¬ keys ++ more <+: seq := by
  have hnot : ¬ keys <+: seq := by
    intro hlead
    by_cases hlen : keys.length < seq.length
    · have hstart := isStart_iff.2 ⟨seq, hseq, hlen, hlead⟩
      rw [h.ended] at hstart
      cases hstart
    · have hsame := hlead.eq_of_length (Nat.le_antisymm hlead.length_le (Nat.le_of_not_lt hlen))
      have hbound := h.unbound seq hne (by rw [hsame])
      rw [isBound_of_mem hseq] at hbound
      cases hbound
  constructor
  · intro hdone
    rcases List.prefix_or_prefix_of_prefix hdone (List.prefix_append keys more) with hin | hout
    · have hbound := h.unbound seq hne hin
      rw [isBound_of_mem hseq] at hbound
      cases hbound
    · exact hnot hout
  · intro hopen
    exact hnot ((List.prefix_append keys more).trans hopen)

@[simp] theorem keysOf_append (segs more : List Segment) :
    keysOf (segs ++ more) = keysOf segs ++ keysOf more := by
  rw [keysOf, List.flatMap_append]
  rfl

@[simp] theorem keysOf_singleton (seg : Segment) : keysOf [seg] = seg.keys := by
  simp [keysOf]

theorem lastDigits_digit (segs : List Segment) (press : KeyPress) :
    lastDigits (segs ++ [.digit press]) = lastDigits segs ++ [press] := by
  rw [lastDigits, List.foldl_append]
  rfl

theorem lastDigits_other (segs : List Segment) {seg : Segment} (h : ∀ press, seg ≠ .digit press) :
    lastDigits (segs ++ [seg]) = [] := by
  rw [lastDigits, List.foldl_append]
  cases seg with
  | digit press => exact absurd rfl (h press)
  | action _ _ _ => rfl
  | discarded _ => rfl

theorem countOf_concat (digits : List KeyPress) {press : KeyPress} {d : Nat}
    (h : digit press = some d) :
    countOf (digits ++ [press]) = some (extendCount (countOf digits) d) := by
  rw [countOf, List.foldl_append, List.foldl_cons, List.foldl_nil, h]
  rfl

/-- A segment of a longer list is the last one, or was there before. -/
theorem concat_split {segs before after : List Segment} {seg other : Segment}
    (h : segs ++ [seg] = before ++ other :: after) :
    before = segs ∧ other = seg ∧ after = [] ∨
      ∃ middle, after = middle ++ [seg] ∧ segs = before ++ other :: middle := by
  rcases List.eq_nil_or_concat after with rfl | ⟨middle, last, rfl⟩
  · obtain ⟨hsegs, hseg⟩ := List.append_inj' h rfl
    exact .inl ⟨hsegs.symm, (List.cons.inj hseg).1.symm, rfl⟩
  · right
    rw [List.concat_eq_append, ← List.cons_append, ← List.append_assoc] at h
    obtain ⟨hsegs, hseg⟩ := List.append_inj' h rfl
    obtain rfl := (List.cons.inj hseg).1
    exact ⟨middle, List.concat_eq_append, hsegs⟩

/-- What was typed is the segments so far, what is pending and what is still
to be fed; the queue holds the last actions, and the count is what was
typed last. -/
structure Account (b : Bindings) (typed : List KeyPress) (handed : List (String × Option Nat))
    (s : KeybindManager) (keys : List KeyPress) (segs : List Segment) : Prop where
  split : typed = keysOf segs ++ (s.matcher.pending ++ keys)
  waits : s.matcher.pending ≠ [] → b.isStart s.matcher.pending = true
  actions : segs.filterMap Segment.resolved = handed ++ s.queued
  digits : ∀ press, .digit press ∈ segs → digit press ≠ none
  bound : ∀ keys name count, .action keys name count ∈ segs → actionOf b keys = some name
  counted : ∀ before after keys name count,
    segs = before ++ .action keys name count :: after → count = countOf (lastDigits before)
  discarded : ∀ before after press, segs = before ++ .discarded press :: after →
    b.single.lookup press = none ∧ ∃ dead, Dead b (press :: dead) ∧
      dead <+: keysOf after ++ (s.matcher.pending ++ keys)
  count : s.pendingCount = countOf (lastDigits segs)
  alive : ∀ start, start ≠ [] → start <+: s.matcher.pending → b.isBound start = false

namespace Account

variable {b : Bindings} {typed keys keys' : List KeyPress} {handed : List (String × Option Nat)}
  {s s' : KeybindManager} {segs : List Segment} {seg : Segment}

theorem alive_nil (b : Bindings) :
    ∀ start, start ≠ [] → start <+: ([] : List KeyPress) → b.isBound start = false :=
  fun _ hne hlead => absurd (List.prefix_nil.1 hlead) hne

/-- One segment more, and nothing pending. -/
theorem extend (h : Account b typed handed s keys segs)
    (hempty : s'.matcher.pending = [])
    (hsplit : s.matcher.pending ++ keys = seg.keys ++ keys')
    (hactions : s'.queued = s.queued ++ seg.resolved.toList)
    (hdigits : ∀ press, seg = .digit press → digit press ≠ none)
    (hbound : ∀ keys name count, seg = .action keys name count →
      actionOf b keys = some name ∧ count = s.pendingCount)
    (hdiscarded : ∀ press, seg = .discarded press → b.single.lookup press = none ∧
      ∃ dead, Dead b (press :: dead) ∧ dead <+: keys')
    (hcount : s'.pendingCount = countOf (lastDigits (segs ++ [seg]))) :
    Account b typed handed s' keys' (segs ++ [seg]) where
  split := by
    rw [h.split, hsplit, hempty, keysOf_append, keysOf_singleton, List.append_assoc]
    rfl
  waits hne := absurd hempty hne
  actions := by
    rw [List.filterMap_append, h.actions, hactions, List.append_assoc]
    cases hseg : seg.resolved <;> simp [hseg]
  digits press hmem := by
    rcases List.mem_append.1 hmem with hbefore | hlast
    · exact h.digits press hbefore
    · exact hdigits press (List.mem_singleton.1 hlast).symm
  bound keys name count hmem := by
    rcases List.mem_append.1 hmem with hbefore | hlast
    · exact h.bound keys name count hbefore
    · exact (hbound keys name count (List.mem_singleton.1 hlast).symm).1
  counted before after keys name count heq := by
    rcases concat_split heq with ⟨rfl, hseg, -⟩ | ⟨middle, -, hsegs⟩
    · rw [(hbound keys name count hseg.symm).2, h.count]
    · exact h.counted before middle keys name count hsegs
  discarded before after press heq := by
    rw [hempty]
    rcases concat_split heq with ⟨rfl, hseg, rfl⟩ | ⟨middle, rfl, hsegs⟩
    · exact hdiscarded press hseg.symm
    · obtain ⟨hnone, dead, hdead, hlead⟩ := h.discarded before middle press hsegs
      refine ⟨hnone, dead, hdead, ?_⟩
      rw [hsplit] at hlead
      rw [keysOf_append, keysOf_singleton, List.append_assoc]
      exact hlead
  count := hcount
  alive := by
    rw [hempty]
    exact alive_nil b

/-- The key goes to what is pending. -/
theorem wait (h : Account b typed handed s keys segs)
    (hsplit : s.matcher.pending ++ keys = s'.matcher.pending ++ keys')
    (hqueued : s'.queued = s.queued) (hcount : s'.pendingCount = s.pendingCount)
    (hwaits : b.isStart s'.matcher.pending = true)
    (halive : ∀ start, start ≠ [] → start <+: s'.matcher.pending → b.isBound start = false) :
    Account b typed handed s' keys' segs where
  split := by rw [h.split, hsplit]
  waits _ := hwaits
  actions := by rw [h.actions, hqueued]
  digits := h.digits
  bound := h.bound
  counted := h.counted
  discarded before after press heq := by
    rw [← hsplit]
    exact h.discarded before after press heq
  count := by rw [hcount, h.count]
  alive := halive

/-- The keys that are alive, and the keys themselves not bound: no start of
them is. -/
theorem unbound_concat {pending : List KeyPress} {press : KeyPress}
    (halive : ∀ start, start ≠ [] → start <+: pending → b.isBound start = false)
    (hbound : b.isBound (pending ++ [press]) = false) :
    ∀ start, start ≠ [] → start <+: pending ++ [press] → b.isBound start = false := by
  intro start hne hlead
  rcases List.prefix_concat_iff.1 hlead with rfl | hin
  · exact hbound
  · exact halive start hne hin

/-- One feed. -/
theorem step {press : KeyPress} {now : Nat} (h : Account b typed handed s (press :: keys) segs)
    (hintime : s.matcher.expire now = s.matcher) (hclean : ¬ Spoils b s press) :
    ∃ segs', Account b typed handed (feedStep b now s press).1
      ((feedStep b now s press).2 ++ keys) segs' := by
  rw [feedStep]
  cases hdigit : s.countDigit press with
  | some d =>
      -- a digit goes to the count; nothing is pending
      rw [countDigit] at hdigit
      split at hdigit
      · cases hdigit
      · next hnone =>
        have hempty : s.matcher.pending = [] := by
          simpa [KeySequenceMatcher.hasPending] using hnone
        obtain ⟨hd, -⟩ := Option.filter_eq_some_iff.1 hdigit
        refine ⟨segs ++ [.digit press], h.extend hempty ?_ ?_ ?_ ?_ ?_ ?_⟩
        · rw [hempty]
          rfl
        · exact (List.append_nil _).symm
        · intro press' heq
          cases heq
          rw [hd]
          exact Option.some_ne_none d
        · intro _ _ _ heq
          cases heq
        · intro _ heq
          cases heq
        · rw [lastDigits_digit, countOf_concat _ hd, ← h.count]
  | none =>
      dsimp only
      rcases s.matcher.feed_cases b press now with ⟨hbound, hfeed⟩ | ⟨hbound, hstart, hfeed⟩ |
        ⟨hbound, hstart, hempty, hfeed⟩ | ⟨first, rest, hbound, hstart, hpending, hfeed⟩
      · -- the keys are bound
        rw [hintime] at hbound hfeed
        rw [hfeed]
        dsimp only
        have hname : ∃ name, actionOf b (s.matcher.pending ++ [press]) = some name := by
          cases hpending : s.matcher.pending with
          | nil =>
              rw [List.nil_append]
              refine Option.ne_none_iff_exists'.1 fun hnone => hclean ?_
              rw [hpending] at hbound
              exact ⟨hpending, hdigit, hnone, .inl hbound⟩
          | cons first rest =>
              rw [hpending] at hbound
              obtain ⟨name, hname⟩ := Option.isSome_iff_exists.1 hbound
              refine ⟨name, ?_⟩
              cases rest <;> exact hname
        obtain ⟨name, hname⟩ := hname
        rw [hname]
        refine ⟨segs ++ [.action (s.matcher.pending ++ [press]) name s.pendingCount],
          h.extend rfl ?_ rfl ?_ ?_ ?_ ?_⟩
        · exact List.append_cons ..
        · intro _ heq
          cases heq
        · intro keys' name' count' heq
          cases heq
          exact ⟨hname, rfl⟩
        · intro _ heq
          cases heq
        · rw [lastDigits_other _ fun _ heq => by cases heq]
          rfl
      · -- the keys go on
        rw [hintime] at hbound hstart hfeed
        rw [hfeed]
        exact ⟨segs, h.wait (List.append_cons ..) rfl rfl hstart (unbound_concat h.alive hbound)⟩
      · -- one key, and no sequence
        rw [hintime] at hempty
        rw [hfeed]
        dsimp only
        cases hsingle : b.single.lookup press with
        | some name =>
            rw [Option.isSome_some, if_pos rfl]
            dsimp only [actionOf]
            rw [hsingle]
            refine ⟨segs ++ [.action [press] name s.pendingCount],
              h.extend rfl ?_ rfl ?_ ?_ ?_ ?_⟩
            · rw [hempty]
              rfl
            · intro _ heq
              cases heq
            · intro keys' name' count' heq
              cases heq
              exact ⟨hsingle, rfl⟩
            · intro _ heq
              cases heq
            · rw [lastDigits_other _ fun _ heq => by cases heq]
              rfl
        | none =>
            rw [Option.isSome_none, if_neg (by decide)]
            have hcount : s.pendingCount = none := by
              by_contra hsome
              exact hclean ⟨hempty, hdigit, hsingle, .inr ⟨hsome, hstart⟩⟩
            refine ⟨segs ++ [.discarded press], h.extend rfl ?_ ?_ ?_ ?_ ?_ ?_⟩
            · rw [hempty]
              rfl
            · exact (List.append_nil _).symm
            · intro _ heq
              cases heq
            · intro _ _ _ heq
              cases heq
            · intro press' heq
              cases heq
              have hdead : Dead b [press] :=
                ⟨unbound_concat (alive_nil b) hbound, hstart⟩
              exact ⟨hsingle, [], hdead, List.nil_prefix⟩
            · rw [lastDigits_other _ fun _ heq => by cases heq]
              exact hcount
      · -- a start that nothing completes: its first key goes, and the others are fed again
        rw [hintime] at hpending
        rw [hfeed]
        dsimp only
        have halive := h.alive
        rw [hpending] at halive
        have hdead : Dead b (first :: (rest ++ [press])) :=
          ⟨unbound_concat halive hbound, hstart⟩
        have hagain : s.matcher.pending ++ press :: keys = first :: (rest ++ [press] ++ keys) := by
          rw [hpending]
          simp
        cases hsingle : b.single.lookup first with
        | some name =>
            dsimp only
            refine ⟨segs ++ [.action [first] name s.pendingCount],
              h.extend rfl ?_ rfl ?_ ?_ ?_ ?_⟩
            · exact hagain
            · intro _ heq
              cases heq
            · intro keys' name' count' heq
              cases heq
              exact ⟨hsingle, rfl⟩
            · intro _ heq
              cases heq
            · rw [lastDigits_other _ fun _ heq => by cases heq]
              rfl
        | none =>
            dsimp only
            refine ⟨segs ++ [.discarded first], h.extend rfl ?_ ?_ ?_ ?_ ?_ ?_⟩
            · exact hagain
            · exact (List.append_nil _).symm
            · intro _ heq
              cases heq
            · intro _ _ _ heq
              cases heq
            · intro press' heq
              cases heq
              exact ⟨hsingle, rest ++ [press], hdead, List.prefix_append _ keys⟩
            · rw [lastDigits_other _ fun _ heq => by cases heq]
              rfl

end Account

/-! ### The clock -/

/-- What is pending was typed last at that time. -/
def Timed (time : Nat) (m : KeySequenceMatcher) : Prop :=
  m = {} ∨ m.pending ≠ [] ∧ m.pendingSince = some time

theorem Timed.expire {time now : Nat} {m : KeySequenceMatcher} (h : Timed time m)
    (hintime : now - time ≤ multiKeyTimeout) : m.expire now = m := by
  rw [KeySequenceMatcher.expire]
  rcases h with rfl | ⟨-, hsome⟩
  · rfl
  · rw [hsome]
    exact if_neg (Nat.not_lt.2 hintime)

/-- What a feed leaves pending is from now. -/
theorem timed_feedStep {b : Bindings} {time : Nat} {s : KeybindManager}
    (h : Timed time s.matcher) (now : Nat) (press : KeyPress) :
    Timed now (feedStep b now s press).1.matcher := by
  rw [feedStep]
  cases hdigit : s.countDigit press with
  | some d =>
      -- a digit goes to the count only when nothing is pending
      rw [countDigit] at hdigit
      split at hdigit
      · cases hdigit
      · next hnone =>
        rcases h with hempty | ⟨hpending, -⟩
        · exact .inl hempty
        · exact absurd (by simpa [KeySequenceMatcher.hasPending] using hnone) hpending
  | none =>
      dsimp only
      rcases s.matcher.feed_cases b press now with ⟨-, hfeed⟩ | ⟨-, -, hfeed⟩ |
        ⟨-, -, -, hfeed⟩ | ⟨first, rest, -, -, -, hfeed⟩
      · rw [hfeed]
        dsimp only
        cases actionOf b ((s.matcher.expire now).pending ++ [press]) with
        | some name => exact .inl rfl
        | none => exact .inl rfl
      · rw [hfeed]
        exact .inr ⟨by simp, rfl⟩
      · rw [hfeed]
        dsimp only
        cases hsingle : b.single.lookup press with
        | some name =>
            rw [Option.isSome_some, if_pos rfl]
            dsimp only [actionOf]
            rw [hsingle]
            exact .inl rfl
        | none => exact .inl rfl
      · rw [hfeed]
        dsimp only
        cases b.single.lookup first with
        | some name => exact .inl rfl
        | none => exact .inl rfl

/-! ### A keystroke -/

/-- No key that is fed spoils a count, those of broken prefixes among them. -/
inductive Clean (b : Bindings) (now : Nat) : KeybindManager → List KeyPress → Prop where
  | nil (s : KeybindManager) : Clean b now s []
  | cons {s : KeybindManager} {press : KeyPress} {keys : List KeyPress}
      (hkeeps : ¬ Spoils b s press)
      (hrest : Clean b now (feedStep b now s press).1 ((feedStep b now s press).2 ++ keys)) :
      Clean b now s (press :: keys)

theorem Account.feedKeys {b : Bindings} {typed keys : List KeyPress}
    {handed : List (String × Option Nat)} {now : Nat} {s : KeybindManager}
    {segs : List Segment} (h : Account b typed handed s keys segs)
    (htimed : Timed now s.matcher) (hclean : Clean b now s keys) :
    ∃ segs', Account b typed handed (feedKeys b now s keys) [] segs' ∧
      Timed now (feedKeys b now s keys).matcher := by
  induction hclean generalizing segs with
  | nil s =>
      rw [feedKeys_nil]
      exact ⟨segs, h, htimed⟩
  | cons hkeeps _ ih =>
      rw [KeybindManager.feedKeys]
      have hintime := htimed.expire (by rw [Nat.sub_self]; exact Nat.zero_le _)
      obtain ⟨segs', hstep⟩ := h.step hintime hkeeps
      exact ih hstep (timed_feedStep htimed now _)

theorem feedStep_resolvedCount (b : Bindings) (now : Nat) (s : KeybindManager)
    (press : KeyPress) : (feedStep b now s press).1.resolvedCount = s.resolvedCount := by
  rw [feedStep]
  cases s.countDigit press with
  | some d => rfl
  | none =>
      dsimp only
      cases (s.matcher.feed b press now).1 with
      | matched seq => dsimp only; cases actionOf b seq <;> rfl
      | pending => rfl
      | broken first rest => dsimp only; cases b.single.lookup first <;> rfl
      | unbound => rfl

theorem feedKeys_resolvedCount (b : Bindings) (now : Nat) (s : KeybindManager)
    (keys : List KeyPress) : (feedKeys b now s keys).resolvedCount = s.resolvedCount := by
  induction s, keys using feedKeys.induct b now with
  | case1 s => rw [feedKeys_nil]
  | case2 s press keys ih => rw [feedKeys, ih, feedStep_resolvedCount]

/-- The queue is handed out with its counts. -/
theorem drain_eq (s : KeybindManager) (name : String) (count : Option Nat) {fuel : Nat}
    (hfuel : s.queued.length < fuel) :
    drain { s with resolvedCount := some count } fuel (some name) =
      ((name, count) :: s.queued, { s with queued := [], resolvedCount := none }) := by
  induction fuel generalizing s name count with
  | zero => exact absurd hfuel (Nat.not_lt_zero _)
  | succ fuel ih =>
      rw [drain]
      dsimp only [takeCount]
      cases hqueued : s.queued with
      | nil =>
          dsimp only [nextQueuedAction]
          cases fuel <;> rfl
      | cons entry queued =>
          obtain ⟨name', count'⟩ := entry
          rw [hqueued, List.length_cons] at hfuel
          dsimp only [nextQueuedAction]
          have hnext := ih { s with queued } name' count' (Nat.lt_of_succ_lt_succ hfuel)
          dsimp only at hnext ⊢
          rw [hnext]

theorem keystroke_eq (b : Bindings) (now : Nat) (s : KeybindManager) (press : KeyPress) :
    keystroke b now s press =
      ((feedKey b now { s with resolvedCount := none } press).queued,
        { feedKey b now { s with resolvedCount := none } press with queued := [] }) := by
  rw [keystroke, processKey]
  have hresolved : (feedKey b now { s with resolvedCount := none } press).resolvedCount = none :=
    feedKeys_resolvedCount b now _ [press]
  generalize feedKey b now { s with resolvedCount := none } press = t at hresolved ⊢
  obtain ⟨matcher, pendingCount, queued, resolvedCount⟩ := t
  cases hresolved
  cases queued with
  | nil => rfl
  | cons entry queued =>
      dsimp only [nextQueuedAction]
      exact drain_eq ⟨matcher, pendingCount, queued, none⟩ _ _ (Nat.lt_succ_self _)

/-! ### Runs -/

/-- Every keystroke finds the one before it within the timeout. -/
def InTime (time : Nat) : List (KeyPress × Nat) → Prop
  | [] => True
  | (_, now) :: rest => now - time ≤ multiKeyTimeout ∧ InTime now rest

def CleanRun (b : Bindings) (s : KeybindManager) : List (KeyPress × Nat) → Prop
  | [] => True
  | (press, now) :: rest =>
      Clean b now { s with resolvedCount := none } [press] ∧
        CleanRun b (keystroke b now s press).2 rest

/-- One key more is typed. -/
theorem Account.type {b : Bindings} {typed : List KeyPress} {handed : List (String × Option Nat)}
    {s : KeybindManager} {segs : List Segment} (h : Account b typed handed s [] segs)
    (press : KeyPress) :
    Account b (typed ++ [press]) handed { s with resolvedCount := none } [press] segs where
  split := by
    rw [h.split, List.append_nil, List.append_assoc]
  waits := h.waits
  actions := h.actions
  digits := h.digits
  bound := h.bound
  counted := h.counted
  discarded before after press' heq := by
    obtain ⟨hnone, dead, hdead, hlead⟩ := h.discarded before after press' heq
    rw [List.append_nil] at hlead
    refine ⟨hnone, dead, hdead, ?_⟩
    rw [← List.append_assoc]
    exact hlead.trans (List.prefix_append _ _)
  count := h.count
  alive := h.alive

/-- The queue is handed out. -/
theorem Account.hand {b : Bindings} {typed keys : List KeyPress}
    {handed : List (String × Option Nat)} {s : KeybindManager} {segs : List Segment}
    (h : Account b typed handed s keys segs) :
    Account b typed (handed ++ s.queued) { s with queued := [] } keys segs where
  split := h.split
  waits := h.waits
  actions := by rw [h.actions, List.append_nil]
  digits := h.digits
  bound := h.bound
  counted := h.counted
  discarded := h.discarded
  count := h.count
  alive := h.alive

theorem Account.strokes {b : Bindings} {run : List (KeyPress × Nat)} {typed : List KeyPress}
    {handed : List (String × Option Nat)} {s : KeybindManager} {segs : List Segment} {time : Nat}
    (h : Account b typed handed s [] segs) (hqueued : s.queued = [])
    (htimed : Timed time s.matcher) (hintime : InTime time run) (hclean : CleanRun b s run) :
    ∃ segs', Account b (typed ++ run.map Prod.fst) (handed ++ (strokes b s run).1)
      (strokes b s run).2 [] segs' ∧ (strokes b s run).2.queued = [] := by
  induction run generalizing typed handed s segs time with
  | nil =>
      rw [KeybindManager.strokes, List.map_nil, List.append_nil, List.append_nil]
      exact ⟨segs, h, hqueued⟩
  | cons stroke run ih =>
      obtain ⟨press, now⟩ := stroke
      obtain ⟨hnow, hintime⟩ := hintime
      obtain ⟨hfirst, hclean⟩ := hclean
      rw [keystroke_eq] at hclean
      -- the first feed finds the prefix of the keystroke before, the others their own
      cases hfirst with
      | cons hkeeps hrest =>
          obtain ⟨fed, hstep⟩ := (h.type press).step (htimed.expire hnow) hkeeps
          obtain ⟨done, hfeed, hnext⟩ :=
            hstep.feedKeys (timed_feedStep (s := { s with resolvedCount := none }) htimed now press) hrest
          rw [← KeybindManager.feedKeys] at hfeed hnext
          obtain ⟨segs', hrun, hempty⟩ := ih hfeed.hand rfl hnext hintime hclean
          rw [KeybindManager.strokes]
          dsimp only
          rw [keystroke_eq, List.map_cons, List.append_cons typed, ← List.append_assoc]
          exact ⟨segs', hrun, hempty⟩

/-- A manager that has seen no key. -/
theorem Account.init (b : Bindings) : Account b [] [] {} [] [] where
  split := rfl
  waits hne := absurd rfl hne
  actions := rfl
  digits _ hmem := absurd hmem List.not_mem_nil
  bound _ _ _ hmem := absurd hmem List.not_mem_nil
  counted before after _ _ _ heq := by cases before <;> cases heq
  discarded before after _ heq := by cases before <;> cases heq
  count := rfl
  alive := alive_nil b

/-- At the end of a run, nothing is left to be fed. -/
theorem Account.accounted {b : Bindings} {typed : List KeyPress}
    {handed : List (String × Option Nat)} {s : KeybindManager} {segs : List Segment}
    (h : Account b typed handed s [] segs) (hqueued : s.queued = []) :
    Accounted b typed s.matcher.pending handed segs where
  split := by rw [h.split, List.append_nil]
  waits := h.waits
  actions := by rw [h.actions, hqueued, List.append_nil]
  digits := h.digits
  bound := h.bound
  counted := h.counted
  discarded before after press heq := by
    obtain ⟨hnone, dead, hdead, more, hmore⟩ := h.discarded before after press heq
    rw [List.append_nil] at hmore
    refine ⟨hnone, fun seq hseq hhead => ?_⟩
    have hne : seq ≠ [] := by
      intro hnil
      rw [hnil] at hhead
      cases hhead
    rw [← hmore]
    exact hdead.none_left hseq hne more

/-- Every key is accounted for in a run whose feeds spoil no count. The
loop of `feed_key` over the keys of a broken prefix ends: its equation has
a solution. -/
theorem keystrokes_accounted (b : Bindings) :
    (∀ now s press, feedKey b now s press =
      (feedStep b now s press).2.foldl (feedKey b now) (feedStep b now s press).1) ∧
    ∀ time run, InTime time run → CleanRun b {} run → ∃ segs,
      Accounted b (run.map Prod.fst) (strokes b {} run).2.matcher.pending (strokes b {} run).1
        segs := by
  refine ⟨feedKey_eq b, fun time run hintime hclean => ?_⟩
  obtain ⟨segs, hrun, hqueued⟩ :=
    (Account.init b).strokes rfl (.inl rfl : Timed time _) hintime hclean
  exact ⟨segs, hrun.accounted hqueued⟩

def plain (c : Char) : KeyPress := ⟨.char c, .none⟩

def sampleBindings : Bindings where
  single := (∅ : Map KeyPress String).insert (plain 'j') "move-down"
  multi := (∅ : Map (List KeyPress) String).insert [plain 'g', plain 'g'] "move-top"

instance (b : Bindings) (s : KeybindManager) (press : KeyPress) : Decidable (Spoils b s press) :=
  inferInstanceAs (Decidable (_ ∧ _ ∧ _ ∧ (_ ∨ _ ∧ _)))

/-- A key after which nothing is fed again. -/
theorem keystroke_once {b : Bindings} {now : Nat} {s t : KeybindManager} {press : KeyPress}
    (h : feedStep b now s press = (t, [])) (hs : s.resolvedCount = none) :
    keystroke b now s press = (t.queued, { t with queued := [] }) := by
  have hsame : { s with resolvedCount := none } = s := by rw [← hs]
  rw [keystroke_eq, feedKey, KeybindManager.feedKeys, hsame, h]
  simp only [List.append_nil, feedKeys_nil]

/-- A key after which one is fed again. -/
theorem keystroke_twice {b : Bindings} {now : Nat} {s t u : KeybindManager}
    {press again : KeyPress}
    (h : feedStep b now s press = (t, [again])) (hagain : feedStep b now t again = (u, []))
    (hs : s.resolvedCount = none) :
    keystroke b now s press = (u.queued, { u with queued := [] }) := by
  have hsame : { s with resolvedCount := none } = s := by rw [← hs]
  rw [keystroke_eq, feedKey, KeybindManager.feedKeys, hsame, h]
  simp only [List.append_nil]
  rw [KeybindManager.feedKeys, hagain]
  simp only [List.append_nil, feedKeys_nil]

/-- A key that breaks a prefix: the prefix is dropped with its count, and
the key is fed again. -/
theorem keystrokes_accounted_sample : ∃ segs,
    Accounted sampleBindings [plain '3', plain 'g', plain 'j'] [] [("move-down", none)] segs := by
  have hcount : feedStep sampleBindings 0 {} (plain '3') = ({ pendingCount := some 3 }, []) := by
    decide
  have hstart : feedStep sampleBindings 1 { pendingCount := some 3 } (plain 'g') =
      ({ matcher := ⟨[plain 'g'], some 1⟩, pendingCount := some 3 }, []) := by
    decide
  have hbreak : feedStep sampleBindings 2
      { matcher := ⟨[plain 'g'], some 1⟩, pendingCount := some 3 } (plain 'j') =
        ({}, [plain 'j']) := by
    decide
  have hagain : feedStep sampleBindings 2 {} (plain 'j') =
      ({ queued := [("move-down", none)] }, []) := by
    decide
  have hrun : strokes sampleBindings {} [(plain '3', 0), (plain 'g', 1), (plain 'j', 2)] =
      ([("move-down", none)], {}) := by
    simp only [strokes, keystroke_once hcount rfl, keystroke_once hstart rfl,
      keystroke_twice hbreak hagain rfl, List.nil_append, List.append_nil]
  have hclean : CleanRun sampleBindings {} [(plain '3', 0), (plain 'g', 1), (plain 'j', 2)] := by
    simp only [CleanRun, keystroke_once hcount rfl, keystroke_once hstart rfl]
    refine ⟨.cons (by decide) ?_, .cons (by decide) ?_,
      .cons (by decide) ?_, trivial⟩
    · rw [hcount]
      exact .nil _
    · rw [hstart]
      exact .nil _
    · rw [hbreak]
      refine .cons (by decide) ?_
      rw [hagain]
      exact .nil _
  have hintime : InTime 0 [(plain '3', 0), (plain 'g', 1), (plain 'j', 2)] :=
    ⟨by decide, by decide, by decide, trivial⟩
  have haccount := (keystrokes_accounted sampleBindings).2 0 _ hintime hclean
  rw [hrun] at haccount
  exact haccount

/-- The count of an unbound key goes to the next action. -/
theorem count_kept : ¬ ∀ b time run, InTime time run → ∃ segs,
    Accounted b (run.map Prod.fst) (strokes b {} run).2.matcher.pending (strokes b {} run).1
      segs := by
  intro h
  obtain ⟨segs, hsegs⟩ := h sampleBindings 0 [(plain '5', 0), (plain 'z', 1), (plain 'j', 2)]
    ⟨by decide, by decide, by decide, trivial⟩
  have hcount : feedStep sampleBindings 0 {} (plain '5') = ({ pendingCount := some 5 }, []) := by
    decide
  have hunbound : feedStep sampleBindings 1 { pendingCount := some 5 } (plain 'z') =
      ({ pendingCount := some 5 }, []) := by
    decide
  have hdown : feedStep sampleBindings 2 { pendingCount := some 5 } (plain 'j') =
      ({ queued := [("move-down", some 5)] }, []) := by
    decide
  have hrun : strokes sampleBindings {} [(plain '5', 0), (plain 'z', 1), (plain 'j', 2)] =
      ([("move-down", some 5)], {}) := by
    simp only [strokes, keystroke_once hcount rfl, keystroke_once hunbound rfl,
      keystroke_once hdown rfl, List.nil_append, List.append_nil]
  rw [hrun] at hsegs
  have hactions := hsegs.actions
  obtain ⟨seg, hmem, hseg⟩ : ∃ seg ∈ segs, seg.resolved = some ("move-down", some 5) := by
    rw [← List.mem_filterMap, hactions]
    exact List.mem_singleton.2 rfl
  cases seg with
  | digit press => cases hseg
  | discarded press => cases hseg
  | action keys name count =>
      cases hseg
      have hname := hsegs.bound keys _ _ hmem
      obtain ⟨before, after, rfl⟩ := List.append_of_mem hmem
      have htyped := hsegs.counted before after keys _ _ rfl
      have hsplit := hsegs.split
      -- the action takes a count, so the segment before it is the digit
      rcases List.eq_nil_or_concat before with rfl | ⟨front, last, rfl⟩
      · cases htyped
      · rw [List.concat_eq_append] at *
        cases last with
        | digit press =>
            have hdigit := hsegs.digits press (by simp)
            have htyped : [plain '5', plain 'z', plain 'j'] =
                keysOf front ++ press :: (keys ++ keysOf after) := by
              simpa [keysOf, Segment.keys] using hsplit
            generalize keysOf front = front at htyped
            generalize keysOf after = after at htyped
            rcases front with _ | ⟨first, _ | ⟨second, front⟩⟩
            · obtain ⟨-, hkeys⟩ := List.cons.inj htyped
              have hlead : keys ∈ [plain 'z', plain 'j'].inits := by
                rw [hkeys]
                exact (List.mem_inits _ _).2 (List.prefix_append _ _)
              have hnone : ∀ keys ∈ [plain 'z', plain 'j'].inits,
                  actionOf sampleBindings keys ≠ some "move-down" := by
                decide
              exact hnone keys hlead hname
            · obtain ⟨-, hmore⟩ := List.cons.inj htyped
              rw [← (List.cons.inj hmore).1] at hdigit
              exact hdigit (by decide)
            · obtain ⟨-, hmore⟩ := List.cons.inj (List.cons.inj htyped).2
              cases front with
              | nil =>
                  rw [← (List.cons.inj hmore).1] at hdigit
                  exact hdigit (by decide)
              | cons third front => simp at hmore
        | action _ _ _ =>
            rw [lastDigits_other _ fun _ heq => by cases heq] at htyped
            cases htyped
        | discarded _ =>
            rw [lastDigits_other _ fun _ heq => by cases heq] at htyped
            cases htyped

end KeybindManager

end Keybind

end Yaldabaoth
