import Yaldabaoth.Model.KeyNotation
import Yaldabaoth.Proofs.Keys.CharCase

/-!
# `Yaldabaoth.Proofs.Keys.Notation`: the round trip of key notation

What parsing can result in are the `Printable` presses
(`parseKeyCombo_printable`), and those are parsed from what is formatted
(`parse_format`). So a sequence comes back (`printable_round_trip`), unless
it is empty, as that of white space is, or has a back tab in it, which has a
name that is not parsed (`notation_round_trip`).
-/

set_option autoImplicit false

namespace Yaldabaoth

namespace KeyNotation

open CharCase

/-! ### Splitting at white space -/

theorem splitOnP_visible (p : Char → Bool) (text : List Char) :
    ∀ piece ∈ text.splitOnP p, ∀ c ∈ piece, p c = false := by
  induction text with
  | nil =>
      intro piece hpiece c hc
      rw [List.splitOnP_nil, List.mem_singleton] at hpiece
      rw [hpiece] at hc
      cases hc
  | cons c text ih =>
      rw [List.splitOnP_cons_eq_if_modifyHead]
      split
      · intro piece hpiece
        rcases List.mem_cons.1 hpiece with rfl | hlater
        · intro c hc
          cases hc
        · exact ih piece hlater
      · next hc =>
        cases hsplit : text.splitOnP p with
        | nil => exact absurd hsplit (List.splitOnP_ne_nil p text)
        | cons first pieces =>
            rw [hsplit] at ih
            intro piece hpiece
            rw [List.modifyHead_cons] at hpiece
            rcases List.mem_cons.1 hpiece with rfl | hlater
            · intro d hd
              rcases List.mem_cons.1 hd with rfl | hrest
              · simpa using hc
              · exact ih first List.mem_cons_self d hrest
            · exact ih piece (List.mem_cons_of_mem first hlater)

/-- There is a token if there is something besides white space. -/
theorem splitWhitespace_nil (text : List Char) :
    splitWhitespace text = [] ↔ ∀ c ∈ text, isWhitespace c = true := by
  rw [splitWhitespace]
  induction text with
  | nil => simp
  | cons c text ih =>
      rw [List.splitOnP_cons_eq_if_modifyHead]
      by_cases hc : isWhitespace c = true
      · rw [if_pos hc, List.filter_cons_of_neg (by simp), ih]
        simp [hc]
      · rw [if_neg hc]
        cases hsplit : text.splitOnP isWhitespace with
        | nil => exact absurd hsplit (List.splitOnP_ne_nil isWhitespace text)
        | cons first pieces => simp [hc]

theorem splitWhitespace_token {text token : List Char} (h : token ∈ splitWhitespace text) :
    ∀ c ∈ token, isWhitespace c = false := by
  rw [splitWhitespace, List.mem_filter] at h
  exact splitOnP_visible isWhitespace text token h.1

/-- Tokens joined by spaces are split again. -/
theorem splitWhitespace_join {tokens : List (List Char)}
    (h : ∀ token ∈ tokens, token ≠ [] ∧ ∀ c ∈ token, isWhitespace c = false) :
    splitWhitespace (List.intercalate [' '] tokens) = tokens := by
  induction tokens with
  | nil => rfl
  | cons token tokens ih =>
      obtain ⟨hne, hvisible⟩ := h token List.mem_cons_self
      cases tokens with
      | nil =>
          rw [List.intercalate_singleton, splitWhitespace, List.splitOnP_eq_singleton hvisible]
          simp [hne]
      | cons next tokens =>
          have hrest := ih fun later hlater => h later (List.mem_cons_of_mem token hlater)
          rw [splitWhitespace] at hrest
          rw [List.intercalate_cons_cons, List.append_assoc, List.singleton_append, splitWhitespace,
            List.splitOnP_append_cons_of_forall_mem hvisible ' ' (by decide),
            List.filter_cons_of_pos (by simpa using hne), hrest]

/-! ### Splitting at dashes -/

theorem splitn_none {sep : Char} {text : List Char} (h : sep ∉ text) (n : Nat) :
    splitn sep (n + 1) text = [text] := by
  cases n with
  | zero => rfl
  | succ n =>
      have hnone : (text.dropWhile fun c => c ≠ sep) = [] := by
        rw [List.dropWhile_eq_nil_iff]
        intro c hc
        simp only [decide_eq_true_eq]
        rintro rfl
        exact h hc
      rw [splitn, hnone]

theorem splitn_append {sep : Char} {part : List Char} (h : sep ∉ part) (n : Nat)
    (after : List Char) :
    splitn sep (n + 2) (part ++ sep :: after) = part :: splitn sep (n + 1) after := by
  have hall : ∀ c ∈ part, decide (c ≠ sep) = true := by
    intro c hc
    simp only [decide_eq_true_eq]
    rintro rfl
    exact h hc
  rw [splitn, List.dropWhile_append_of_pos hall, List.takeWhile_append_of_pos hall]
  simp

/-- Parts with a separator behind each are split off. -/
theorem splitn_parts {sep : Char} {parts : List (List Char)} (h : ∀ part ∈ parts, sep ∉ part)
    (n : Nat) (rest : List Char) :
    splitn sep (parts.length + n + 1) (parts.flatMap (· ++ [sep]) ++ rest) =
      parts ++ splitn sep (n + 1) rest := by
  induction parts with
  | nil => simp
  | cons part parts ih =>
      have hrest := ih fun later hlater => h later (List.mem_cons_of_mem part hlater)
      have hcount : (part :: parts).length + n + 1 = parts.length + n + 2 := by
        rw [List.length_cons]
        omega
      rw [hcount, List.flatMap_cons, List.append_assoc, List.append_assoc, List.singleton_append,
        splitn_append (h part List.mem_cons_self), hrest, List.cons_append]

theorem splitn_sublist {sep : Char} (n : Nat) (text : List Char) :
    ∀ part ∈ splitn sep n text, part.Sublist text := by
  induction n using Nat.strongRecOn generalizing text with
  | ind n ih =>
      intro part hpart
      rcases n with _ | _ | n
      · cases hpart
      · rw [splitn, List.mem_singleton] at hpart
        rw [hpart]
      · rw [splitn] at hpart
        cases hdrop : text.dropWhile fun c => c ≠ sep with
        | nil =>
            rw [hdrop, List.mem_singleton] at hpart
            rw [hpart]
        | cons d after =>
            rw [hdrop] at hpart
            rcases List.mem_cons.1 hpart with rfl | hlater
            · exact List.takeWhile_sublist _
            · have hsuffix := List.dropWhile_sublist (l := text) fun c => decide (c ≠ sep)
              rw [hdrop] at hsuffix
              exact ((ih (n + 1) (by omega) after part hlater).trans
                (List.sublist_cons_self d after)).trans hsuffix

/-- Joining undoes a split. -/
theorem splitn_join {sep : Char} (n : Nat) (text : List Char) :
    List.intercalate [sep] (splitn sep (n + 1) text) = text := by
  induction n generalizing text with
  | zero => exact List.intercalate_singleton
  | succ n ih =>
      rw [splitn]
      cases hdrop : text.dropWhile fun c => c ≠ sep with
      | nil => exact List.intercalate_singleton
      | cons d after =>
          have hd : d = sep := by
            by_contra hne
            have hhead := List.head?_dropWhile_not (fun c => decide (c ≠ sep)) text
            rw [hdrop] at hhead
            simp [hne] at hhead
          have htext := List.takeWhile_append_dropWhile (p := fun c => decide (c ≠ sep)) (l := text)
          rw [hdrop, hd] at htext
          have hne : splitn sep (n + 1) after ≠ [] := by
            cases n with
            | zero => simp [splitn]
            | succ n =>
                rw [splitn]
                split <;> simp
          dsimp only
          rw [List.intercalate_cons_of_ne_nil hne, ih, List.append_assoc, List.singleton_append]
          exact htext

theorem mem_intercalate {sep c : Char} {parts : List (List Char)}
    (h : c ∈ List.intercalate [sep] parts) : c = sep ∨ ∃ part ∈ parts, c ∈ part := by
  induction parts with
  | nil => cases h
  | cons part parts ih =>
      cases parts with
      | nil =>
          rw [List.intercalate_singleton] at h
          exact .inr ⟨part, List.mem_cons_self, h⟩
      | cons next parts =>
          rw [List.intercalate_cons_cons, List.mem_append, List.mem_append,
            List.mem_singleton] at h
          rcases h with (hpart | hsep) | hrest
          · exact .inr ⟨part, List.mem_cons_self, hpart⟩
          · exact .inl hsep
          · rcases ih hrest with hsep | ⟨later, hlater, hin⟩
            · exact .inl hsep
            · exact .inr ⟨later, List.mem_cons_of_mem part hlater, hin⟩

/-! ### Key names -/

/-- The keys that are parsed by a name. -/
def plainNames : List Key :=
  [.char ' ', .enter, .tab, .esc, .backspace, .delete, .insert, .up, .down, .left, .right, .home,
    .end, .pageUp, .pageDown, .f 1, .f 2, .f 3, .f 4, .f 5, .f 6, .f 7, .f 8, .f 9, .f 10, .f 11,
    .f 12]

/-- No key name is a single character. -/
theorem lookup_short {name : List Char} (h : name.length ≤ 1) : namedKeys.lookup name = none := by
  rw [List.lookup_eq_none_iff]
  intro entry hentry
  have hlong : ∀ entry ∈ namedKeys, 1 < entry.1.length := by decide
  have := hlong entry hentry
  rw [bne_iff_ne]
  rintro rfl
  omega

theorem functionKey_short {name : List Char} (h : name.length ≤ 1) : functionKey name = none := by
  rw [functionKey]
  split
  · have htail : name.tail = [] := by
      rw [← List.length_eq_zero_iff, List.length_tail]
      omega
    rw [htail]
    rfl
  · rfl

theorem functionKey_plain {name : List Char} {key : Key} (h : functionKey name = some key) :
    key ∈ plainNames := by
  rw [functionKey] at h
  split at h
  · obtain ⟨n, -, hn⟩ := Option.bind_eq_some_iff.1 h
    split at hn
    · next hbounds =>
      cases hn
      have hall : ∀ n ≤ 12, 1 ≤ n → Key.f (UInt8.ofNat n) ∈ plainNames := by decide
      exact hall n hbounds.2 hbounds.1
    · cases hn
  · cases h

theorem lookup_mem {name : List Char} {names : List (List Char × Key)} {key : Key}
    (h : names.lookup name = some key) : ∃ entry ∈ names, entry.2 = key := by
  rw [List.lookup_eq_findSome?] at h
  obtain ⟨entry, hentry, hfound⟩ := List.exists_of_findSome?_eq_some h
  split at hfound
  · exact ⟨entry, hentry, Option.some.inj hfound⟩
  · cases hfound

/-- What a name is parsed to. -/
theorem parseKeyName_ok {lower written : List Char} {position : Nat} {key : Key}
    (h : parseKeyName lower written position = .ok key) :
    key ∈ plainNames ∨ ∃ c, written = [c] ∧ key = .char c := by
  unfold parseKeyName at h
  cases hlookup : namedKeys.lookup lower with
  | some found =>
      rw [hlookup] at h
      cases h
      left
      have hall : ∀ entry ∈ namedKeys, entry.2 ∈ plainNames := by decide
      obtain ⟨entry, hentry, rfl⟩ := lookup_mem hlookup
      exact hall entry hentry
  | none =>
      cases hfunction : functionKey lower with
      | some found =>
          rw [hlookup, hfunction] at h
          cases h
          exact .inl (functionKey_plain hfunction)
      | none =>
          rw [hlookup, hfunction] at h
          right
          rcases written with _ | ⟨c, _ | ⟨d, written⟩⟩
          · cases h
          · cases h
            exact ⟨c, rfl, rfl⟩
          · cases h

/-- A single character is parsed as it is written. -/
theorem parseKeyName_char {lower : List Char} (h : lower.length ≤ 1 ∨ lower = ['i', '\u0307'])
    (c : Char) (position : Nat) : parseKeyName lower [c] position = .ok (.char c) := by
  have hnone : namedKeys.lookup lower = none ∧ functionKey lower = none := by
    rcases h with hshort | rfl
    · exact ⟨lookup_short hshort, functionKey_short hshort⟩
    · exact ⟨by decide, by decide⟩
  rw [parseKeyName, hnone.1, hnone.2]

/-- A name is parsed as the key that is written so. -/
theorem parseKeyName_plain {key : Key} (h : key ∈ plainNames) (position : Nat) :
    parseKeyName (formatKeyCode key) (formatKeyCode key) position = .ok key := by
  have hall : ∀ key ∈ plainNames,
      (namedKeys.lookup (formatKeyCode key) <|> functionKey (formatKeyCode key)) = some key := by
    decide
  have hkey := hall key h
  unfold parseKeyName
  cases hlookup : namedKeys.lookup (formatKeyCode key) with
  | some found =>
      rw [hlookup] at hkey
      rw [Option.some.inj hkey]
  | none =>
      rw [hlookup] at hkey
      have hfunction : functionKey (formatKeyCode key) = some key := hkey
      rw [hfunction]

/-! ### Modifiers -/

def modifierNames : List (List Char) :=
  ["ctrl".toList, "control".toList, "alt".toList, "meta".toList, "shift".toList]

theorem addModifier_other {part : List Char} (h : part ∉ modifierNames) (modifiers : Modifiers) :
    addModifier part modifiers = none := by
  rw [modifierNames] at h
  simp only [List.mem_cons, List.not_mem_nil, or_false, not_or] at h
  obtain ⟨hctrl, hcontrol, halt, hmeta, hshift⟩ := h
  rw [addModifier, if_neg (not_or.2 ⟨hctrl, hcontrol⟩), if_neg (not_or.2 ⟨halt, hmeta⟩),
    if_neg hshift]

theorem addModifier_short {part : List Char} (h : part.length ≤ 2) (modifiers : Modifiers) :
    addModifier part modifiers = none := by
  apply addModifier_other
  intro hname
  have hlong : ∀ name ∈ modifierNames, 2 < name.length := by decide
  have := hlong part hname
  omega

/-- A modifier that a notation names is held. -/
def Held (modifiers : Modifiers) : Prop :=
  modifiers.control = true ∨ modifiers.alt = true ∨ modifiers.shift = true

theorem addModifier_held {part : List Char} {modifiers added : Modifiers}
    (h : addModifier part modifiers = some added) :
    added.platform = modifiers.platform ∧ Held added := by
  rw [addModifier] at h
  split at h
  · cases h
    simp [Held]
  · split at h
    · cases h
      simp [Held]
    · split at h
      · cases h
        simp [Held]
      · cases h

/-- If a part counts, a modifier is held; the platform key never is. -/
theorem scanModifiers_held (parts : List (List Char)) (modifiers : Modifiers) (i : Nat) :
    (scanModifiers parts modifiers i).1.platform = modifiers.platform ∧
      i ≤ (scanModifiers parts modifiers i).2 ∧
      (i < (scanModifiers parts modifiers i).2 ∨ Held modifiers →
        Held (scanModifiers parts modifiers i).1) := by
  induction parts generalizing modifiers i with
  | nil => simp [scanModifiers]
  | cons part parts ih =>
      rw [scanModifiers]
      cases hadd : addModifier part modifiers with
      | none => simp
      | some added =>
          obtain ⟨hplatform, hheld⟩ := addModifier_held hadd
          obtain ⟨hrestPlatform, hcount, hrestHeld⟩ := ih added (i + 1)
          refine ⟨hrestPlatform.trans hplatform, by dsimp only; omega, ?_⟩
          intro _
          exact hrestHeld (.inr hheld)

/-- The scan ends at a part that is no modifier. -/
theorem scanModifiers_stop {part : List Char} {parts : List (List Char)} {modifiers : Modifiers}
    (h : addModifier part modifiers = none) (i : Nat) :
    scanModifiers (part :: parts) modifiers i = (modifiers, i) := by
  rw [scanModifiers, h]

/-! ### Presses -/

/-- A key that is formatted so that its name is parsed, whatever its case. -/
inductive PlainKey : Key → Prop where
  | named {key : Key} (h : key ∈ plainNames) : PlainKey key
  | char {c : Char} (h : isWhitespace c = false) : PlainKey (.char c)

/-- And one whose name is in lower case. -/
inductive LowerKey : Key → Prop where
  | named {key : Key} (h : key ∈ plainNames) : LowerKey key
  | char {c : Char} (h : isWhitespace c = false) (hlower : toLowercase c = [c]) :
      LowerKey (.char c)

/-- The modifiers that are kept: not shift alone. -/
def chords : List Modifiers :=
  [{ control := true }, { alt := true }, { control := true, alt := true },
    { control := true, shift := true }, { alt := true, shift := true },
    { control := true, alt := true, shift := true }]

/-- What parsing results in. -/
inductive Printable : KeyPress → Prop where
  | plain {key : Key} (h : PlainKey key) : Printable ⟨key, .none⟩
  | chord {key : Key} {modifiers : Modifiers} (hmodifiers : modifiers ∈ chords)
      (h : LowerKey key) : Printable ⟨key, modifiers⟩

/-- No modifiers that are kept change a named key, nor does shift alone. -/
theorem applyShift_plainNames : ∀ key ∈ plainNames,
    applyShift key { shift := true } = (key, .none) ∧
      ∀ modifiers ∈ chords, applyShift key modifiers = (key, modifiers) := by
  decide +kernel

theorem applyShift_chord {key : Key} (hkey : LowerKey key) {modifiers : Modifiers}
    (hmodifiers : modifiers ∈ chords) : applyShift key modifiers = (key, modifiers) := by
  cases hkey with
  | named h => exact (applyShift_plainNames key h).2 modifiers hmodifiers
  | char _ hlower =>
      have hother : ∀ modifiers ∈ chords, modifiers.shift = false ∨
          { modifiers with shift := false } ≠ Modifiers.none := by decide
      rcases hother modifiers hmodifiers with hshift | hothers
      · simp [applyShift, hshift]
      · simp [applyShift, hothers, hlower]

/-- Shift alone is folded into the key. -/
theorem applyShift_alone {key : Key} (hkey : LowerKey key) :
    (applyShift key { shift := true }).2 = .none ∧
      PlainKey (applyShift key { shift := true }).1 := by
  cases hkey with
  | named h =>
      rw [(applyShift_plainNames key h).1]
      exact ⟨rfl, .named h⟩
  | char h _ => exact ⟨rfl, .char (upperFirst_visible h)⟩

theorem applyShift_printable {key : Key} (hkey : LowerKey key) {modifiers : Modifiers}
    (hplatform : modifiers.platform = false) (hheld : Held modifiers) :
    Printable ⟨(applyShift key modifiers).1, (applyShift key modifiers).2⟩ := by
  have hkinds : modifiers ∈ chords ∨ modifiers = { shift := true } := by
    obtain ⟨control, alt, shift, platform⟩ := modifiers
    dsimp only at hplatform
    subst hplatform
    revert control alt shift
    unfold Held
    decide
  rcases hkinds with hchord | rfl
  · rw [applyShift_chord hkey hchord]
    exact .chord hchord hkey
  · obtain ⟨hnone, hplain⟩ := applyShift_alone hkey
    rw [hnone]
    exact .plain hplain

/-! ### What is parsed -/

section parse

variable (cased caseIgnorable alphabetic : Char → Bool)

/-- A token is parsed to a printable press. -/
theorem parseKeyCombo_printable {token : List Char} {position : Nat} {press : KeyPress}
    (hvisible : ∀ c ∈ token, isWhitespace c = false)
    (h : parseKeyCombo cased caseIgnorable alphabetic token position = .ok press) :
    Printable press := by
  rw [parseKeyCombo] at h
  have hheld :=
    scanModifiers_held (splitn '-' 10 (strToLowercase cased caseIgnorable token)) .none 0
  generalize hparts : splitn '-' 10 (strToLowercase cased caseIgnorable token) = parts at h hheld
  cases hscan : scanModifiers parts .none 0 with
  | mk modifiers keyPartIndex =>
      rw [hscan] at h hheld
      dsimp only at h hheld
      obtain ⟨hplatform, -, hheld⟩ := hheld
      split at h
      · next hpos =>
        split at h
        · cases h
        · -- the key name is in lower case
          cases hname : parseKeyNameLower (List.intercalate ['-'] (parts.drop keyPartIndex))
              position with
          | error e =>
              rw [hname] at h
              cases h
          | ok key =>
              rw [hname] at h
              have hkey : LowerKey key := by
                rcases parseKeyName_ok hname with hplain | ⟨c, hc, rfl⟩
                · exact .named hplain
                · have hin : c ∈ List.intercalate ['-'] (parts.drop keyPartIndex) := by
                    rw [hc]
                    exact List.mem_cons_self
                  rcases mem_intercalate hin with rfl | ⟨part, hpart, hcpart⟩
                  · exact .char (by decide) (toLowercase_mark (by simp [selfLower]))
                  · have hsub : part.Sublist (strToLowercase cased caseIgnorable token) := by
                      apply splitn_sublist 10
                      rw [hparts]
                      exact List.mem_of_mem_drop hpart
                    have hlowered := hsub.subset hcpart
                    obtain ⟨hstable, hseen⟩ := lowerText_mem cased caseIgnorable [] token c hlowered
                    exact .char (hseen hvisible) hstable
              have hprintable := applyShift_printable hkey hplatform (hheld (.inl hpos))
              cases h
              exact hprintable
      · split at h
        · cases h
        · cases hname : parseKeyNameOriginal cased caseIgnorable token position with
          | error e =>
              rw [hname] at h
              cases h
          | ok key =>
              rw [hname] at h
              cases h
              rcases parseKeyName_ok hname with hplain | ⟨c, hc, rfl⟩
              · exact .plain (.named hplain)
              · apply Printable.plain
                apply PlainKey.char
                apply hvisible
                rw [hc]
                exact List.mem_cons_self

/-! ### What is formatted -/

/-- A text that is a single token in lower case. -/
def spelled (text : List Char) : Bool :=
  !text.isEmpty && text.all fun c => !isWhitespace c && toLowercase c == [c]

/-- A name is spelled, without a dash, and is no modifier. -/
theorem plainNames_spelled : ∀ key ∈ plainNames,
    spelled (formatKeyCode key) = true ∧ '-' ∉ formatKeyCode key ∧
      formatKeyCode key ∉ modifierNames := by
  decide +kernel

theorem formatKeyCode_char {c : Char} (h : isWhitespace c = false) :
    formatKeyCode (.char c) = [c] := by
  have hne : c ≠ ' ' := by
    rintro rfl
    exact absurd h (by decide)
  exact if_neg hne

/-- A key in lower case is parsed from its text. -/
theorem LowerKey.parsed {key : Key} (h : LowerKey key) (position : Nat) :
    spelled (formatKeyCode key) = true ∧
      parseKeyNameLower (formatKeyCode key) position = .ok key := by
  cases h with
  | named h => exact ⟨(plainNames_spelled key h).1, parseKeyName_plain h position⟩
  | @char c h hlower =>
      rw [formatKeyCode_char h]
      constructor
      · simp [spelled, h, hlower]
      · exact parseKeyName_char (.inl (by simp)) c position

theorem splitn_ne_nil (sep : Char) (n : Nat) (text : List Char) : splitn sep (n + 1) text ≠ [] := by
  cases n with
  | zero => simp [splitn]
  | succ n =>
      rw [splitn]
      split <;> simp

/-- A text no longer than two characters does not begin with a modifier. -/
theorem first_short {text : List Char} (h : text.length ≤ 2) (n : Nat) :
    ∃ first more, splitn '-' (n + 1) text = first :: more ∧
      ∀ modifiers, addModifier first modifiers = none := by
  cases hsplit : splitn '-' (n + 1) text with
  | nil => exact absurd hsplit (splitn_ne_nil '-' n text)
  | cons first more =>
      refine ⟨first, more, rfl, ?_⟩
      have hsub : first.Sublist text := by
        apply splitn_sublist (n + 1)
        rw [hsplit]
        exact List.mem_cons_self
      exact addModifier_short (Nat.le_trans hsub.length_le h)

/-- The text of a key does not begin with a modifier. -/
theorem LowerKey.first {key : Key} (h : LowerKey key) (n : Nat) :
    ∃ first more, splitn '-' (n + 1) (formatKeyCode key) = first :: more ∧
      ∀ modifiers, addModifier first modifiers = none := by
  cases h with
  | named h =>
      obtain ⟨-, hdash, hother⟩ := plainNames_spelled key h
      exact ⟨_, [], splitn_none hdash n, addModifier_other hother⟩
  | char h _ =>
      rw [formatKeyCode_char h]
      apply first_short
      simp

/-- The modifiers of a chord as parts. -/
theorem chord_parts {modifiers : Modifiers} (h : modifiers ∈ chords) (key : Key) :
    ∃ parts, parts ≠ [] ∧ parts.length ≤ 3 ∧ (∀ part ∈ parts, '-' ∉ part ∧ spelled part = true) ∧
      formatKeyCombo ⟨key, modifiers⟩ = parts.flatMap (· ++ ['-']) ++ formatKeyCode key ∧
      ∀ rest, scanModifiers (parts ++ rest) .none 0 = scanModifiers rest modifiers parts.length := by
  have hspelled : ∀ part ∈ ["ctrl".toList, "alt".toList, "shift".toList],
      '-' ∉ part ∧ spelled part = true := by decide
  have hsub : ∀ parts : List (List Char), parts ≠ [] → parts.length ≤ 3 →
      (∀ part ∈ parts, part ∈ ["ctrl".toList, "alt".toList, "shift".toList]) →
      formatKeyCombo ⟨key, modifiers⟩ = parts.flatMap (· ++ ['-']) ++ formatKeyCode key →
      (∀ rest, scanModifiers (parts ++ rest) .none 0 =
        scanModifiers rest modifiers parts.length) →
      ∃ parts, parts ≠ [] ∧ parts.length ≤ 3 ∧
        (∀ part ∈ parts, '-' ∉ part ∧ spelled part = true) ∧
        formatKeyCombo ⟨key, modifiers⟩ = parts.flatMap (· ++ ['-']) ++ formatKeyCode key ∧
        ∀ rest, scanModifiers (parts ++ rest) .none 0 =
          scanModifiers rest modifiers parts.length := by
    intro parts hne hlength hnames hformat hscan
    exact ⟨parts, hne, hlength, fun part hpart => hspelled part (hnames part hpart), hformat, hscan⟩
  simp only [chords, List.mem_cons, List.not_mem_nil, or_false] at h
  rcases h with rfl | rfl | rfl | rfl | rfl | rfl
  · exact hsub ["ctrl".toList] (by decide) (by decide) (by decide) rfl fun _ => rfl
  · exact hsub ["alt".toList] (by decide) (by decide) (by decide) rfl fun _ => rfl
  · exact hsub ["ctrl".toList, "alt".toList] (by decide) (by decide) (by decide) rfl fun _ => rfl
  · exact hsub ["ctrl".toList, "shift".toList] (by decide) (by decide) (by decide) rfl fun _ => rfl
  · exact hsub ["alt".toList, "shift".toList] (by decide) (by decide) (by decide) rfl fun _ => rfl
  · exact hsub ["ctrl".toList, "alt".toList, "shift".toList] (by decide) (by decide) (by decide) rfl
      fun _ => rfl

/-- Parts, each with a dash behind, join like the parts. -/
theorem formatted_lower {parts : List (List Char)}
    (h : ∀ part ∈ parts, '-' ∉ part ∧ spelled part = true) {code : List Char}
    (hcode : spelled code = true) :
    spelled (parts.flatMap (· ++ ['-']) ++ code) = true := by
  have hdash : (!isWhitespace '-' && toLowercase '-' == ['-']) = true := by
    simp [toLowercase_mark (c := '-') (by simp [selfLower]), isWhitespace]
  simp only [spelled, Bool.and_eq_true, List.all_eq_true, Bool.not_eq_true',
    List.isEmpty_eq_false_iff] at h hcode ⊢
  obtain ⟨hne, hall⟩ := hcode
  refine ⟨by simp [hne], ?_⟩
  intro c hc
  rcases List.mem_append.1 hc with hpart | hin
  · obtain ⟨part, hpart, hcpart⟩ := List.mem_flatMap.1 hpart
    rcases List.mem_append.1 hcpart with hin | hsep
    · exact (h part hpart).2.2 c hin
    · rw [List.mem_singleton.1 hsep]
      simpa using hdash
  · exact hall c hin

theorem spelled_lower {text : List Char} (h : spelled text = true) : Lower text := by
  intro c hc
  simp only [spelled, Bool.and_eq_true, List.all_eq_true, beq_iff_eq] at h
  exact (h.2 c hc).2

theorem spelled_token {text : List Char} (h : spelled text = true) :
    text ≠ [] ∧ ∀ c ∈ text, isWhitespace c = false := by
  simp only [spelled, Bool.and_eq_true, List.all_eq_true, Bool.not_eq_true',
    List.isEmpty_eq_false_iff] at h
  exact ⟨h.1, fun c hc => (h.2 c hc).1⟩

/-- A chord is parsed from its text. -/
theorem parse_chord {modifiers : Modifiers} (hmodifiers : modifiers ∈ chords) {key : Key}
    (hkey : LowerKey key) (position : Nat) :
    parseKeyCombo cased caseIgnorable alphabetic (formatKeyCombo ⟨key, modifiers⟩) position =
      .ok ⟨key, modifiers⟩ := by
  obtain ⟨parts, hparts, hlength, hspelled, hformat, hscan⟩ := chord_parts hmodifiers key
  obtain ⟨hcode, hparsed⟩ := hkey.parsed position
  obtain ⟨n, hn⟩ : ∃ n, 10 = parts.length + n + 1 := ⟨9 - parts.length, by omega⟩
  obtain ⟨first, more, hfirst, hother⟩ := hkey.first n
  have hlower := strToLowercase_lower cased caseIgnorable
    (spelled_lower (formatted_lower hspelled hcode))
  have hsplit : splitn '-' 10 (parts.flatMap (· ++ ['-']) ++ formatKeyCode key) =
      parts ++ first :: more := by
    rw [hn, splitn_parts (fun part hpart => (hspelled part hpart).1), hfirst]
  have hname : List.intercalate ['-'] (first :: more) = formatKeyCode key := by
    rw [← hfirst]
    exact splitn_join n _
  have hpos : 0 < parts.length := List.length_pos_of_ne_nil hparts
  have hpresent : ¬ ((parts ++ first :: more).length ≤ parts.length ∨ formatKeyCode key = []) := by
    rw [List.length_append, List.length_cons, not_or]
    exact ⟨by omega, (spelled_token hcode).1⟩
  rw [parseKeyCombo, hformat, hlower, hsplit, hscan, scanModifiers_stop (hother modifiers)]
  dsimp only
  rw [if_pos hpos, List.drop_left, hname, if_neg hpresent, hparsed]
  show Except.ok (KeyPress.mk (applyShift key modifiers).1 (applyShift key modifiers).2) = _
  rw [applyShift_chord hkey hmodifiers]

/-- The lower case of a character is a character, or two. -/
theorem strToLowercase_char (c : Char) :
    (strToLowercase cased caseIgnorable [c]).length ≤ 1 ∨
      strToLowercase cased caseIgnorable [c] = ['i', '\u0307'] := by
  rw [strToLowercase, lowerText, lowerText, List.append_nil]
  split
  · exact .inl (Nat.le_refl 1)
  · rw [toLowercase]
    split
    · exact .inr rfl
    · exact .inl (Nat.le_refl 1)

/-- A key without modifiers is parsed from its text. -/
theorem parse_plain {key : Key} (hkey : PlainKey key) (position : Nat) :
    parseKeyCombo cased caseIgnorable alphabetic (formatKeyCombo ⟨key, .none⟩) position =
      .ok ⟨key, .none⟩ := by
  have hformat : formatKeyCombo ⟨key, .none⟩ = formatKeyCode key := rfl
  have hsteps : ∀ first more,
      splitn '-' 10 (strToLowercase cased caseIgnorable (formatKeyCode key)) = first :: more →
      (∀ modifiers, addModifier first modifiers = none) →
      ('-' ∉ formatKeyCode key ∨ formatKeyCode key = ['-']) →
      parseKeyNameOriginal cased caseIgnorable (formatKeyCode key) position = .ok key →
      parseKeyCombo cased caseIgnorable alphabetic (formatKeyCode key) position =
        .ok ⟨key, .none⟩ := by
    intro first more hsplit hother hdash hparsed
    have hunknown : unknownModifier alphabetic (formatKeyCode key) first = false := by
      rcases hdash with hnone | hsame
      · simp [unknownModifier, hnone]
      · simp [unknownModifier, hsame]
    rw [parseKeyCombo, hsplit, scanModifiers_stop (hother .none)]
    dsimp only
    rw [if_neg (Nat.lt_irrefl 0), List.headD_cons, hunknown, hparsed]
    rfl
  rw [hformat]
  cases hkey with
  | named h =>
      obtain ⟨hspelled, hdash, hother⟩ := plainNames_spelled key h
      have hlower := strToLowercase_lower cased caseIgnorable (spelled_lower hspelled)
      apply hsteps _ [] _ (addModifier_other hother) (.inl hdash)
      · rw [parseKeyNameOriginal, hlower]
        exact parseKeyName_plain h position
      · rw [hlower]
        exact splitn_none hdash 9
  | @char c h =>
      have hchar := strToLowercase_char cased caseIgnorable c
      have hshort : (strToLowercase cased caseIgnorable [c]).length ≤ 2 := by
        rcases hchar with hone | htwo
        · omega
        · rw [htwo]
          exact Nat.le_refl 2
      obtain ⟨first, more, hfirst, hother⟩ := first_short hshort 9
      rw [formatKeyCode_char h] at hsteps ⊢
      apply hsteps first more hfirst hother
      · by_cases hdash : c = '-'
        · right
          rw [hdash]
        · left
          simpa using Ne.symm hdash
      · exact parseKeyName_char hchar c position

/-- What is parsed is printed as it was. -/
theorem parse_format {press : KeyPress} (h : Printable press) (position : Nat) :
    parseKeyCombo cased caseIgnorable alphabetic (formatKeyCombo press) position = .ok press := by
  cases h with
  | plain h => exact parse_plain cased caseIgnorable alphabetic h position
  | chord hmodifiers h => exact parse_chord cased caseIgnorable alphabetic hmodifiers h position

theorem format_token {press : KeyPress} (h : Printable press) :
    formatKeyCombo press ≠ [] ∧ ∀ c ∈ formatKeyCombo press, isWhitespace c = false := by
  cases h with
  | @plain key h =>
      have hformat : formatKeyCombo ⟨key, .none⟩ = formatKeyCode key := rfl
      rw [hformat]
      cases h with
      | named h => exact spelled_token (plainNames_spelled key h).1
      | char h =>
          rw [formatKeyCode_char h]
          simpa using h
  | @chord key modifiers hmodifiers h =>
      obtain ⟨parts, -, -, hspelled, hformat, -⟩ := chord_parts hmodifiers key
      rw [hformat]
      exact spelled_token (formatted_lower hspelled (h.parsed 0).1)

/-! ### Sequences -/

/-- Presses that can be printed come back. -/
theorem printable_round_trip {keys : List KeyPress} (hne : keys ≠ [])
    (h : ∀ press ∈ keys, Printable press) :
    parseKeySequence cased caseIgnorable alphabetic (formatKeySequence keys) = .ok keys := by
  have htokens : ∀ token ∈ keys.map formatKeyCombo,
      token ≠ [] ∧ ∀ c ∈ token, isWhitespace c = false := by
    intro token htoken
    obtain ⟨press, hpress, rfl⟩ := List.mem_map.1 htoken
    exact format_token (h press hpress)
  have hsplit : splitWhitespace (formatKeySequence keys) = keys.map formatKeyCombo :=
    splitWhitespace_join htokens
  have hparsed : ∀ position,
      parseTokens cased caseIgnorable alphabetic (keys.map formatKeyCombo) position = .ok keys := by
    clear hne htokens hsplit
    induction keys with
    | nil =>
        intro position
        rfl
    | cons press keys ih =>
        intro position
        rw [List.map_cons, parseTokens,
          parse_format cased caseIgnorable alphabetic (h press List.mem_cons_self)]
        have hrest := ih (fun later hlater => h later (List.mem_cons_of_mem press hlater))
        show (do
          let rest ← parseTokens cased caseIgnorable alphabetic (keys.map formatKeyCombo) _
          Except.ok (press :: rest)) = _
        rw [hrest]
        rfl
  have hinput : formatKeySequence keys ≠ [] := by
    intro hempty
    rw [hempty] at hsplit
    exact hne (List.map_eq_nil_iff.1 hsplit.symm)
  rw [parseKeySequence, if_neg hinput, hsplit]
  exact hparsed 0

/-- Each token is parsed to a press. -/
theorem parseTokens_ok {tokens : List (List Char)} {position : Nat} {keys : List KeyPress}
    (hvisible : ∀ token ∈ tokens, ∀ c ∈ token, isWhitespace c = false)
    (h : parseTokens cased caseIgnorable alphabetic tokens position = .ok keys) :
    keys.length = tokens.length ∧ ∀ press ∈ keys, Printable press := by
  induction tokens generalizing position keys with
  | nil =>
      cases h
      simp
  | cons token tokens ih =>
      rw [parseTokens] at h
      cases hpress : parseKeyCombo cased caseIgnorable alphabetic token position with
      | error e =>
          rw [hpress] at h
          cases h
      | ok press =>
          rw [hpress] at h
          have hrest : ∀ later ∈ tokens, ∀ c ∈ later, isWhitespace c = false := by
            intro later hlater
            exact hvisible later (List.mem_cons_of_mem token hlater)
          cases hmore : parseTokens cased caseIgnorable alphabetic tokens
              (position + Utf8Text.lenUtf8 token + 1) with
          | error e =>
              simp only [bind, Except.bind, hmore] at h
              cases h
          | ok more =>
              simp only [bind, Except.bind, hmore] at h
              cases h
              obtain ⟨hlength, hprintable⟩ := ih hrest hmore
              constructor
              · rw [List.length_cons, List.length_cons, hlength]
              · intro later hlater
                rcases List.mem_cons.1 hlater with rfl | hin
                · exact parseKeyCombo_printable cased caseIgnorable alphabetic
                    (hvisible token List.mem_cons_self) hpress
                · exact hprintable later hin

theorem parseKeySequence_ok {input : List Char} {keys : List KeyPress}
    (h : parseKeySequence cased caseIgnorable alphabetic input = .ok keys) :
    (keys = [] ↔ ∀ c ∈ input, isWhitespace c = true) ∧ ∀ press ∈ keys, Printable press := by
  rw [parseKeySequence] at h
  split at h
  · cases h
  · obtain ⟨hlength, hprintable⟩ := parseTokens_ok cased caseIgnorable alphabetic
      (fun token htoken => splitWhitespace_token htoken) h
    refine ⟨?_, hprintable⟩
    rw [← splitWhitespace_nil, ← List.length_eq_zero_iff, hlength, List.length_eq_zero_iff]

/-! ### The round trip -/

/-- The keys that are printed by a name, besides those not modelled. -/
def NamedKey : Key → Prop
  | .char _ => False
  | .other => False
  | .f n => 1 ≤ n.toNat ∧ n.toNat ≤ 12
  | _ => True

/-- A press of some sequence that is accepted. -/
def Parsed (press : KeyPress) : Prop :=
  ∃ input keys, parseKeySequence cased caseIgnorable alphabetic input = .ok keys ∧ press ∈ keys

theorem namedKey_plain {key : Key} (h : NamedKey key) : key = .backTab ∨ key ∈ plainNames := by
  cases key with
  | f n =>
      right
      have hall : ∀ k ≤ 12, 1 ≤ k → Key.f (UInt8.ofNat k) ∈ plainNames := by decide
      have hn := hall n.toNat h.2 h.1
      rwa [UInt8.ofNat_toNat] at hn
  | char c => exact absurd h id
  | other => exact absurd h id
  | backTab => exact .inl rfl
  | _ => exact .inr (by decide)

/-- The back tab is not printed so that it is parsed. -/
theorem backTab_unprintable (modifiers : Modifiers) : ¬ Printable ⟨.backTab, modifiers⟩ := by
  intro h
  cases h with
  | plain h =>
      cases h with
      | named h => exact absurd h (by decide)
  | chord _ h =>
      cases h with
      | named h => exact absurd h (by decide)

/-- An accepted text comes back if there is more to it than white space, and
presses that were parsed or are named come back if none is a back tab. -/
theorem notation_round_trip :
    (∀ input keys, parseKeySequence cased caseIgnorable alphabetic input = .ok keys →
      ((keys ≠ [] ∧
          parseKeySequence cased caseIgnorable alphabetic (formatKeySequence keys) = .ok keys) ↔
        ∃ c ∈ input, isWhitespace c = false)) ∧
    ∀ keys : List KeyPress, keys ≠ [] →
      (∀ press ∈ keys, Parsed cased caseIgnorable alphabetic press ∨
        press.modifiers = .none ∧ NamedKey press.key) →
      (parseKeySequence cased caseIgnorable alphabetic (formatKeySequence keys) = .ok keys ↔
        ∀ press ∈ keys, press.key ≠ .backTab) := by
  constructor
  · intro input keys hparse
    obtain ⟨hempty, hprintable⟩ := parseKeySequence_ok cased caseIgnorable alphabetic hparse
    have hvisible : keys ≠ [] ↔ ∃ c ∈ input, isWhitespace c = false := by
      rw [ne_eq, hempty]
      simp
    rw [← hvisible]
    constructor
    · intro hboth
      exact hboth.1
    · intro hne
      exact ⟨hne, printable_round_trip cased caseIgnorable alphabetic hne hprintable⟩
  · intro keys hne hkinds
    constructor
    · -- what was parsed again can be printed, and a back tab cannot
      intro hparse press hpress hback
      have hprintable := (parseKeySequence_ok cased caseIgnorable alphabetic hparse).2 press hpress
      obtain ⟨key, modifiers⟩ := press
      dsimp only at hback
      subst hback
      exact backTab_unprintable modifiers hprintable
    · intro hnone
      apply printable_round_trip cased caseIgnorable alphabetic hne
      intro press hpress
      rcases hkinds press hpress with ⟨input, parsed, hparse, hin⟩ | ⟨hmodifiers, hnamed⟩
      · exact (parseKeySequence_ok cased caseIgnorable alphabetic hparse).2 press hin
      · obtain ⟨key, modifiers⟩ := press
        dsimp only at hmodifiers hnamed
        subst hmodifiers
        rcases namedKey_plain hnamed with hback | hplain
        · exact absurd hback (hnone _ hpress)
        · exact .plain (.named hplain)

end parse

/-- A property that no character has. -/
def noChar (_ : Char) : Bool := false

/-- A control chord, alone and before a function key. -/
theorem notation_round_trip_sample :
    parseKeySequence noChar noChar noChar
        (formatKeySequence [⟨.char 'x', { control := true }⟩]) =
      .ok [⟨.char 'x', { control := true }⟩] ∧
    parseKeySequence noChar noChar noChar
        (formatKeySequence [⟨.char 'x', { control := true }⟩, ⟨.f 3, .none⟩]) =
      .ok [⟨.char 'x', { control := true }⟩, ⟨.f 3, .none⟩] := by
  obtain ⟨haccepted, hmixed⟩ := notation_round_trip noChar noChar noChar
  have hparse : parseKeySequence noChar noChar noChar "Ctrl-X".toList =
      .ok [⟨.char 'x', { control := true }⟩] := by decide
  constructor
  · exact ((haccepted _ _ hparse).2 ⟨'C', by decide, by decide⟩).2
  · refine (hmixed _ (by simp) ?_).2 (by decide)
    intro press hpress
    rcases List.mem_cons.1 hpress with rfl | hlast
    · exact .inl ⟨_, _, hparse, List.mem_cons_self⟩
    · rw [List.mem_singleton.1 hlast]
      exact .inr ⟨rfl, by decide, by decide⟩

/-- White space is accepted as no presses at all, which are printed as the empty
text. -/
theorem whitespace_empty : ¬ ∀ cased caseIgnorable alphabetic : Char → Bool,
    (∀ input keys, parseKeySequence cased caseIgnorable alphabetic input = .ok keys →
      keys ≠ [] ∧
        parseKeySequence cased caseIgnorable alphabetic (formatKeySequence keys) = .ok keys) ∧
    ∀ keys : List KeyPress, keys ≠ [] →
      (∀ press ∈ keys, Parsed cased caseIgnorable alphabetic press ∨
        press.modifiers = .none ∧ NamedKey press.key) →
      parseKeySequence cased caseIgnorable alphabetic (formatKeySequence keys) = .ok keys := by
  intro hclaim
  have hparse : parseKeySequence noChar noChar noChar [' '] = .ok [] := by decide
  exact ((hclaim noChar noChar noChar).1 [' '] [] hparse).1 rfl

/-- And the name of the back tab is no name to the parser. -/
example : parseKeySequence noChar noChar noChar (formatKeySequence [⟨.backTab, .none⟩]) =
    .error ⟨0, "unknown key 'backtab'"⟩ := by decide

end KeyNotation

end Yaldabaoth
