import Mathlib.Data.List.Forall2
import Mathlib.Data.List.Nodup
import Yaldabaoth.Model.ToolPayload

/-!
# `Yaldabaoth.Proofs.Client.Capping`: what capping again does

A text that was trimmed is longer than the limit by its marker, so it is
trimmed again, and the new marker counts the old one. `capLong_capLong`
says which texts this leaves alone: a marker is 35 characters long, as long
as the tail it may stand for, in one case only.
-/

set_option autoImplicit false

namespace Yaldabaoth

namespace ToolPayload

variable {ν ω : Type}

/-! ### The marker -/

theorem length_truncationMarker (dropped : Nat) :
    (truncationMarker dropped).length = 33 + (Nat.toDigits 10 dropped).length := by
  simp only [truncationMarker, List.length_append]
  show 5 + _ + 28 = _
  omega

theorem truncationMarker_injective {m n : Nat} (h : truncationMarker m = truncationMarker n) :
    m = n := by
  have hdigits := List.append_cancel_left (List.append_cancel_right h)
  have hvalue := congrArg (fun digits => Nat.ofDigitChars 10 digits 0) hdigits
  rw [Nat.ofDigitChars_ten_toDigits, Nat.ofDigitChars_ten_toDigits] at hvalue
  exact hvalue

/-- A number is far larger than the number of its digits, or it has one or two. -/
theorem digits_cases (n : Nat) :
    n < 10 ∧ (Nat.toDigits 10 n).length = 1 ∨
      10 ≤ n ∧ n < 100 ∧ (Nat.toDigits 10 n).length = 2 ∨
      100 ≤ n ∧ (Nat.toDigits 10 n).length + 34 ≤ n := by
  have hpos : 0 < (Nat.toDigits 10 n).length := Nat.length_toDigits_pos
  have hone : (Nat.toDigits 10 n).length ≤ 1 ↔ n < 10 ^ 1 :=
    Nat.length_toDigits_le_iff (by decide) (by decide)
  have htwo : (Nat.toDigits 10 n).length ≤ 2 ↔ n < 10 ^ 2 :=
    Nat.length_toDigits_le_iff (by decide) (by decide)
  by_cases hlarge : 100 ≤ n
  · have hpow : n < 10 ^ (n - 34) := by
      have hmono : 10 ^ (n - 34) = 2 ^ (n - 34) * 5 ^ (n - 34) := by rw [← Nat.mul_pow]
      have htwice : n - 34 < 2 ^ (n - 34) := Nat.lt_two_pow_self
      have hfive : 5 ^ 1 ≤ 5 ^ (n - 34) := Nat.pow_le_pow_right (by decide) (by omega)
      calc n < (n - 34) * 5 := by omega
        _ ≤ 2 ^ (n - 34) * 5 ^ (n - 34) := Nat.mul_le_mul (Nat.le_of_lt htwice) hfive
        _ = 10 ^ (n - 34) := hmono.symm
    have hlen : (Nat.toDigits 10 n).length ≤ n - 34 :=
      (Nat.length_toDigits_le_iff (by decide) (by omega)).2 hpow
    omega
  · omega

/-- The only tail that is as long as its marker. -/
theorem length_truncationMarker_eq_iff (dropped : Nat) :
    (truncationMarker dropped).length = dropped ↔ dropped = 35 := by
  rw [length_truncationMarker]
  have hdigits := digits_cases dropped
  omega

/-! ### One text -/

theorem capLong_short {s : String} (h : s.length ≤ toolPayloadMaxChars) :
    capLong toolPayloadMaxChars s = s := if_neg (Nat.not_lt.2 h)

theorem capLong_long {s : String} (h : toolPayloadMaxChars < s.length) :
    capLong toolPayloadMaxChars s = String.ofList (s.toList.take toolPayloadMaxChars ++
      truncationMarker (s.length - toolPayloadMaxChars)) := by
  rw [capLong, if_pos h, capStringChars, if_neg (Nat.not_le.2 h)]

theorem kept_capLong (s : String) : Kept s (capLong toolPayloadMaxChars s) := by
  by_cases h : s.length ≤ toolPayloadMaxChars
  · exact .inl (capLong_short h)
  · have hlong := Nat.lt_of_not_le h
    exact .inr ⟨hlong, capLong_long hlong⟩

/-- A trimmed text is trimmed again: its head stays, and the new marker counts the old one. -/
theorem capLong_again {s : String} (h : toolPayloadMaxChars < s.length) :
    capLong toolPayloadMaxChars (capLong toolPayloadMaxChars s) =
      String.ofList (s.toList.take toolPayloadMaxChars ++
        truncationMarker (truncationMarker (s.length - toolPayloadMaxChars)).length) := by
  have hhead : (s.toList.take toolPayloadMaxChars).length = toolPayloadMaxChars := by
    rw [List.length_take, String.length_toList]
    omega
  rw [capLong_long h]
  have hlen : (String.ofList (s.toList.take toolPayloadMaxChars ++
      truncationMarker (s.length - toolPayloadMaxChars))).length =
      toolPayloadMaxChars + (truncationMarker (s.length - toolPayloadMaxChars)).length := by
    rw [String.length_ofList, List.length_append, hhead]
  have hmarker := length_truncationMarker (s.length - toolPayloadMaxChars)
  rw [capLong_long (by omega), hlen, String.toList_ofList, List.take_left' hhead,
    Nat.add_sub_cancel_left]

theorem ofList_marker_inj {head : List Char} {m n : Nat}
    (h : String.ofList (head ++ truncationMarker m) = String.ofList (head ++ truncationMarker n)) :
    m = n :=
  truncationMarker_injective (List.append_cancel_left (String.ofList_injective h))

/-- A text that is short, or that loses just as many characters as a marker has. -/
def Settled (s : String) : Prop :=
  s.length ≤ toolPayloadMaxChars ∨ s.length = toolPayloadMaxChars + 35

instance (s : String) : Decidable (Settled s) := inferInstanceAs (Decidable (_ ∨ _))

theorem capLong_capLong (s : String) :
    capLong toolPayloadMaxChars (capLong toolPayloadMaxChars s) = capLong toolPayloadMaxChars s ↔
      Settled s := by
  by_cases h : s.length ≤ toolPayloadMaxChars
  · rw [capLong_short h, capLong_short h]
    exact ⟨fun _ => .inl h, fun _ => rfl⟩
  · have hlong := Nat.lt_of_not_le h
    rw [capLong_again hlong, capLong_long hlong]
    constructor
    · intro heq
      have hmarker := (length_truncationMarker_eq_iff _).1 (ofList_marker_inj heq)
      exact .inr (by omega)
    · rintro (hshort | heq)
      · exact absurd hshort h
      · rw [(length_truncationMarker_eq_iff (s.length - toolPayloadMaxChars)).2 (by omega)]

theorem iterate_capLong {s : String} (h : Settled s) (k : Nat) :
    (capLong toolPayloadMaxChars)^[k + 1] s = capLong toolPayloadMaxChars s := by
  induction k with
  | zero => rfl
  | succ k ih =>
      rw [Function.iterate_succ_apply', ih]
      exact (capLong_capLong s).2 h

/-- The second capping spoils every other text. -/
theorem kept_again_iff (s : String) :
    Kept s (capLong toolPayloadMaxChars (capLong toolPayloadMaxChars s)) ↔ Settled s := by
  constructor
  · intro hkept
    by_cases h : s.length ≤ toolPayloadMaxChars
    · exact .inl h
    · have hlong := Nat.lt_of_not_le h
      rw [capLong_again hlong] at hkept
      have hmarker : (truncationMarker (s.length - toolPayloadMaxChars)).length =
          s.length - toolPayloadMaxChars := by
        rcases hkept with hwhole | ⟨-, htrimmed⟩
        · -- Kept whole: the text is as long as its head and the marker of a marker.
          have hlen := congrArg String.length hwhole
          have hhead : (s.toList.take toolPayloadMaxChars).length = toolPayloadMaxChars := by
            rw [List.length_take, String.length_toList]
            omega
          rw [String.length_ofList, List.length_append, hhead, length_truncationMarker] at hlen
          have hmarker := length_truncationMarker (s.length - toolPayloadMaxChars)
          have hdigits := digits_cases (s.length - toolPayloadMaxChars)
          have hdigits' := digits_cases (truncationMarker (s.length - toolPayloadMaxChars)).length
          omega
        · exact ofList_marker_inj htrimmed
      exact .inr (by have := (length_truncationMarker_eq_iff _).1 hmarker; omega)
  · intro h
    rw [(capLong_capLong s).2 h]
    exact kept_capLong s

/-! ### A call -/

namespace ToolCallContent

theorem strings_mapText (f : String → String) (item : ToolCallContent ν) :
    (item.mapText f).strings = item.strings.map f := by
  cases item with
  | text value rest => rfl
  | diff newText oldText rest => cases oldText <;> rfl
  | other value => rfl

theorem mapText_mapText (f g : String → String) (item : ToolCallContent ν) :
    (item.mapText g).mapText f = item.mapText fun s => f (g s) := by
  cases item with
  | text value rest => rfl
  | diff newText oldText rest => cases oldText <;> rfl
  | other value => rfl

theorem mapText_eq_iff (f g : String → String) (item : ToolCallContent ν) :
    item.mapText f = item.mapText g ↔ ∀ s ∈ item.strings, f s = g s := by
  cases item with
  | text value rest => simp [mapText, strings]
  | diff newText oldText rest => cases oldText <;> simp [mapText, strings]
  | other value => simp [mapText, strings]

end ToolCallContent

theorem strings_capToolCallPayloads (tc : ToolCall ν ω) (field : PayloadField) :
    (capToolCallPayloads tc).strings field =
      (tc.strings field).map (capLong toolPayloadMaxChars) := by
  cases field with
  | content =>
      show (tc.content.map _).flatMap _ = (tc.content.flatMap _).map _
      rw [List.flatMap_map, List.map_flatMap]
      exact List.flatMap_congr fun item _ => ToolCallContent.strings_mapText _ item
  | rawInput =>
      simp only [ToolCall.strings, capToolCallPayloads]
      cases tc.rawInput with
      | none => rfl
      | some input => exact Json.strings_mapStrings _ input
  | rawOutput =>
      simp only [ToolCall.strings, capToolCallPayloads]
      cases tc.rawOutput with
      | none => rfl
      | some output => exact Json.strings_mapStrings _ output

/-- Capping again changes a value exactly where it changes a string of it. -/
theorem capJson_again_iff (value : Option Json) :
    (value.map fun v => capJsonValueStrings (capJsonValueStrings v toolPayloadMaxChars)
        toolPayloadMaxChars) =
      (value.map fun v => capJsonValueStrings v toolPayloadMaxChars) ↔
      ∀ s ∈ value.elim [] Json.strings, Settled s := by
  cases value with
  | none => simp
  | some v =>
      simp only [Option.map_some, Option.some.injEq, capJsonValueStrings, Option.elim_some]
      rw [Json.mapStrings_mapStrings, Json.mapStrings_eq_iff]
      exact forall₂_congr fun s _ => capLong_capLong s

theorem capToolCallPayloads_again_iff (tc : ToolCall ν ω) :
    capToolCallPayloads (capToolCallPayloads tc) = capToolCallPayloads tc ↔
      ∀ field, ∀ s ∈ tc.strings field, Settled s := by
  have hcontent : (tc.content.map (ToolCallContent.mapText (capLong toolPayloadMaxChars))).map
        (ToolCallContent.mapText (capLong toolPayloadMaxChars)) =
      tc.content.map (ToolCallContent.mapText (capLong toolPayloadMaxChars)) ↔
      ∀ s ∈ tc.strings .content, Settled s := by
    rw [List.map_map, List.map_inj_left]
    simp only [ToolCall.strings, List.mem_flatMap, Function.comp_apply,
      ToolCallContent.mapText_mapText, ToolCallContent.mapText_eq_iff, capLong_capLong]
    constructor
    · rintro h s ⟨item, hitem, hs⟩
      exact h item hitem s hs
    · intro h item hitem s hs
      exact h s ⟨item, hitem, hs⟩
  have hinput := capJson_again_iff tc.rawInput
  have houtput := capJson_again_iff tc.rawOutput
  have hparts : capToolCallPayloads (capToolCallPayloads tc) = capToolCallPayloads tc ↔
      (tc.content.map (ToolCallContent.mapText (capLong toolPayloadMaxChars))).map
        (ToolCallContent.mapText (capLong toolPayloadMaxChars)) =
      tc.content.map (ToolCallContent.mapText (capLong toolPayloadMaxChars)) ∧
      (tc.rawInput.map fun v => capJsonValueStrings (capJsonValueStrings v toolPayloadMaxChars)
        toolPayloadMaxChars) =
      (tc.rawInput.map fun v => capJsonValueStrings v toolPayloadMaxChars) ∧
      (tc.rawOutput.map fun v => capJsonValueStrings (capJsonValueStrings v toolPayloadMaxChars)
        toolPayloadMaxChars) =
      (tc.rawOutput.map fun v => capJsonValueStrings v toolPayloadMaxChars) := by
    simp only [capToolCallPayloads, Option.map_map, ToolCall.mk.injEq, and_true]
    exact Iff.rfl
  rw [hparts, hcontent, hinput, houtput]
  constructor
  · rintro ⟨hc, hi, ho⟩ field
    cases field with
    | content => exact hc
    | rawInput => exact hi
    | rawOutput => exact ho
  · intro h
    exact ⟨h .content, h .rawInput, h .rawOutput⟩

/-! ### Further updates -/

/-- An update that leaves a field alone caps it once more. -/
theorem strings_receive (tc : ToolCall ν ω) {fields : ToolCallUpdateFields ν ω}
    {field : PayloadField} (h : fields.sets field = false) :
    (receive tc fields).strings field = (tc.strings field).map (capLong toolPayloadMaxChars) := by
  have hsame : (tc.update fields).strings field = tc.strings field := by
    cases field with
    | content =>
        have hnone : fields.content = none := by simpa [ToolCallUpdateFields.sets] using h
        simp [ToolCall.update, ToolCall.strings, hnone]
    | rawInput =>
        have hnone : fields.rawInput = none := by simpa [ToolCallUpdateFields.sets] using h
        simp [ToolCall.update, ToolCall.strings, hnone]
    | rawOutput =>
        have hnone : fields.rawOutput = none := by simpa [ToolCallUpdateFields.sets] using h
        simp [ToolCall.update, ToolCall.strings, hnone]
  rw [receive, strings_capToolCallPayloads, hsame]

theorem strings_receiveAll {field : PayloadField} {updates : List (ToolCallUpdateFields ν ω)}
    (h : ∀ fields ∈ updates, fields.sets field = false) (tc : ToolCall ν ω) :
    (updates.foldl receive tc).strings field =
      (tc.strings field).map (capLong toolPayloadMaxChars)^[updates.length] := by
  induction updates generalizing tc with
  | nil => simp
  | cons fields rest ih =>
      rw [List.foldl_cons, ih (fun f hf => h f (List.mem_cons_of_mem _ hf)),
        strings_receive tc (h fields (by simp)), List.map_map]
      rfl

/-- Whatever updates of other fields follow, every string of a field is kept. -/
def StaysKept (tc : ToolCall ν ω) : Prop :=
  ∀ field, ∀ updates : List (ToolCallUpdateFields ν ω),
    (∀ fields ∈ updates, fields.sets field = false) →
      List.Forall₂ Kept (tc.strings field)
        ((updates.foldl receive (capToolCallPayloads tc)).strings field)

/-- An update without any field. -/
def idle : ToolCallUpdateFields ν ω where
  content := none
  rawInput := none
  rawOutput := none
  other := id

theorem staysKept_iff (tc : ToolCall ν ω) :
    StaysKept tc ↔ ∀ field, ∀ s ∈ tc.strings field, Settled s := by
  constructor
  · intro h field s hs
    have hsets : (idle : ToolCallUpdateFields ν ω).sets field = false := by cases field <;> rfl
    have honce := h field [idle] (by simp [hsets])
    rw [List.foldl_cons, List.foldl_nil, strings_receive _ hsets, strings_capToolCallPayloads,
      List.map_map, List.forall₂_map_right_iff, List.forall₂_same] at honce
    exact (kept_again_iff s).1 (honce s hs)
  · intro h field updates hupdates
    rw [strings_receiveAll hupdates, strings_capToolCallPayloads, List.map_map,
      List.forall₂_map_right_iff, List.forall₂_same]
    intro s hs
    show Kept s ((capLong toolPayloadMaxChars)^[updates.length] (capLong toolPayloadMaxChars s))
    rw [← Function.iterate_succ_apply, iterate_capLong (h field s hs)]
    exact kept_capLong s

/-- The first capping keeps every string as promised. Capping twice is capping once, and further
updates leave that so, exactly where no string is too long except by the length of a marker. -/
theorem capping_idempotent_iff (tc : ToolCall ν ω) :
    (∀ field, List.Forall₂ Kept (tc.strings field) ((capToolCallPayloads tc).strings field)) ∧
    (capToolCallPayloads (capToolCallPayloads tc) = capToolCallPayloads tc ∧ StaysKept tc ↔
      ∀ field, ∀ s ∈ tc.strings field,
        s.length ≤ toolPayloadMaxChars ∨ s.length = toolPayloadMaxChars + 35) := by
  constructor
  · intro field
    rw [strings_capToolCallPayloads, List.forall₂_map_right_iff, List.forall₂_same]
    exact fun s _ => kept_capLong s
  · rw [capToolCallPayloads_again_iff, staysKept_iff]
    exact and_self_iff

/-- A text of one character too many. -/
def longText : String := String.ofList (List.replicate (toolPayloadMaxChars + 1) 'a')

/-- The second capping says of it that 34 characters are gone. -/
theorem long_text_capped_twice : ¬ ∀ tc : ToolCall Unit Unit,
    capToolCallPayloads (capToolCallPayloads tc) = capToolCallPayloads tc ∧ StaysKept tc := by
  intro h
  have hsettled := (staysKept_iff _).1 (h ⟨[.text longText ()], none, none, ()⟩).2 .content longText
    (by simp [ToolCall.strings, ToolCallContent.strings])
  have hlen : longText.length = toolPayloadMaxChars + 1 := by
    rw [longText, String.length_ofList, List.length_replicate]
  rw [Settled, hlen] at hsettled
  omega

end ToolPayload

end Yaldabaoth
