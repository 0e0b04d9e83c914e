import Mathlib
import Yaldabaoth.Model.AgentEventJson

/-!
# `Yaldabaoth.Proofs.Codec.AgentEvents`: agent events survive JSON

An event of a known kind reads back as itself. An object whose kind this
build does not know is kept as it is: it goes out under its own tag with
every entry it came with, though the tag moves to the front. And the flat
tool calls of older builds, which hold two `kind` keys, read as the
nested ones do.

The envelope and the kind share one object, so the first lemmas are about
entries: which keys are there, and how often.
-/

set_option autoImplicit false

namespace Yaldabaoth

open Json

/-! ### Entries -/

section entries

variable {α : Type} {es es' : Entries} {key : String} {value : Json} {decode : Json → Option α}

theorem mem_keys_of_mem (h : (key, value) ∈ es) : key ∈ keys es :=
  List.mem_map_of_mem h

theorem filter_key_of_not_mem (h : key ∉ keys es) : es.filter (·.1 == key) = [] := by
  refine List.filter_eq_nil_iff.2 fun e he heq => h ?_
  rw [← beq_iff_eq.1 heq]
  exact mem_keys_of_mem he

/-- A key that is there once is there with its value. -/
theorem filter_key_of_mem (hkeys : (keys es).Nodup) (h : (key, value) ∈ es) :
    es.filter (·.1 == key) = [(key, value)] := by
  induction es with
  | nil => cases h
  | cons e rest ih =>
      rw [keys, List.map_cons, List.nodup_cons] at hkeys
      obtain rfl | h := List.mem_cons.1 h
      · rw [List.filter_cons_of_pos (by simp), filter_key_of_not_mem hkeys.1]
      · have hne : e.1 ≠ key := by
          intro heq
          rw [heq] at hkeys
          exact hkeys.1 (mem_keys_of_mem h)
        rw [List.filter_cons_of_neg (by simpa using hne), ih hkeys.2 h]

theorem field_of_mem (hkeys : (keys es).Nodup) (h : (key, value) ∈ es) :
    field es key decode = decode value := by
  rw [field, filter_key_of_mem hkeys h]

/-- Entries with other keys are not seen. -/
theorem field_append (h : key ∉ keys es') : field (es ++ es') key decode = field es key decode := by
  rw [field, field, List.filter_append, filter_key_of_not_mem h, List.append_nil]

theorem value_unique (hkeys : (keys es).Nodup) {value' : Json} (h : (key, value) ∈ es)
    (h' : (key, value') ∈ es) : value = value' := by
  have hone := filter_key_of_mem hkeys h
  have hmem : (key, value') ∈ es.filter (·.1 == key) := by simp [h']
  rw [hone, List.mem_singleton] at hmem
  exact (Prod.mk.inj hmem).2.symm

theorem distinctEntries_iff : distinctEntries es = true ↔ ∀ e ∈ es, distinct e.2 = true := by
  induction es with
  | nil => simp [distinctEntries]
  | cons e rest ih =>
      obtain ⟨key, value⟩ := e
      rw [distinctEntries, Bool.and_eq_true, ih]
      simp

end entries

@[simp] theorem decodeU64_encodeU64 {n : Nat} (h : n ≤ u64Max) : decodeU64 (encodeU64 n) = some n := by
  show (Nat.repr n).toNat?.filter _ = some n
  rw [Nat.toNat?_repr]
  simp [h]

/-! ### The envelope -/

/-- The envelope's numbers are values of `u64`. -/
def AgentEvent.EnvelopeFits (e : AgentEvent) : Prop :=
  e.generation ≤ u64Max ∧ e.turn ≤ u64Max ∧ e.seq ≤ u64Max

/-- So are those of the payload. -/
def AgentEventKind.PayloadFits : AgentEventKind → Prop
  | .usageUpdated usage => usage.tokensUsed ≤ u64Max ∧ usage.tokensTotal ≤ u64Max
  | .compactedSummary throughTurn _ => throughTurn ≤ u64Max
  | _ => True

/-- The envelope of an event read from entries with none of its keys
twice. -/
theorem decode_of_envelope (readers : Readers) {e : AgentEvent} {es : Entries}
    (hfits : e.EnvelopeFits) (hkeys : ∀ entry ∈ e.envelope, es.filter (·.1 == entry.1) = [entry]) :
    AgentEvent.decode readers (.obj es) =
      some { e with kind :=
        AgentEventKind.decode readers (es.filter fun entry => decide (entry.1 ∉ envelopeKeys)) } := by
  obtain ⟨hgeneration, hturn, hseq⟩ := hfits
  simp only [AgentEvent.envelope, List.forall_mem_cons] at hkeys
  obtain ⟨h₁, h₂, h₃, h₄, -⟩ := hkeys
  simp [AgentEvent.decode, field, h₁, h₂, h₃, h₄, decodeString, hgeneration, hturn, hseq]

/-- In particular from what `encode` writes. -/
theorem decode_encoded (readers : Readers) {e : AgentEvent} {es : Entries}
    (hfits : e.EnvelopeFits) (hkeys : ∀ key ∈ keys es, key ∉ envelopeKeys) :
    AgentEvent.decode readers (.obj (e.envelope ++ es)) =
      some { e with kind := AgentEventKind.decode readers es } := by
  rw [decode_of_envelope readers hfits]
  · have hrest : (e.envelope ++ es).filter (fun entry => decide (entry.1 ∉ envelopeKeys)) = es := by
      rw [List.filter_append]
      have hself : es.filter (fun entry => decide (entry.1 ∉ envelopeKeys)) = es := by
        refine List.filter_eq_self.2 fun entry hentry => ?_
        simpa using hkeys entry.1 (mem_keys_of_mem hentry)
      rw [hself]
      simp [AgentEvent.envelope, envelopeKeys]
    rw [hrest]
  · intro entry hentry
    have hkey : entry.1 ∈ envelopeKeys := mem_keys_of_mem hentry
    have hnot : entry.1 ∉ keys es := fun hmem => hkeys entry.1 hmem hkey
    rw [List.filter_append, filter_key_of_not_mem hnot, List.append_nil]
    exact filter_key_of_mem (by simp [AgentEvent.envelope, keys]) hentry

/-! ### Nesting -/

/-- The tree reads as this event, alone, in a WAL line and in a frame. -/
def Decodes (readers : Readers) (j : Json) (e : AgentEvent) : Prop :=
  AgentEvent.decode readers j = some e ∧ decodeWalEventLine readers (walEventLine j) = some e ∧
    decodeNotificationFrame readers (notificationFrame j) = some e

theorem decodeAgentNotification_nested (readers : Readers) (j : Json) :
    decodeAgentNotification readers (.obj (agentNotification j)) = AgentEvent.decode readers j := by
  simp [decodeAgentNotification, agentNotification, internallyTagged, field, decodeString]

/-- The tags of line, notification and frame are told from the event,
which is an object of its own. -/
theorem decodes_iff (readers : Readers) (j : Json) (e : AgentEvent) :
    Decodes readers j e ↔ AgentEvent.decode readers j = some e := by
  have hline : decodeWalEventLine readers (walEventLine j) = AgentEvent.decode readers j := by
    rw [← decodeAgentNotification_nested]
    simp [decodeWalEventLine, walEventLine, internallyTagged, field, decodeString,
      agentNotification]
  have hframe : decodeNotificationFrame readers (notificationFrame j) = AgentEvent.decode readers j := by
    rw [← decodeAgentNotification_nested]
    simp [decodeNotificationFrame, notificationFrame, internallyTagged, field, decodeString,
      agentNotification]
  rw [Decodes, hline, hframe]
  simp

/-! ### The known kinds -/

/-- The keys of a serialized `Plan`. -/
def planFields : List String := ["entries", "_meta"]

/-- The kind is known, and its payload is one that the agent-protocol
library reads back from what it wrote. -/
def AgentEventKind.Readable (readers : Readers) : AgentEventKind → Prop
  | .toolCallStarted toolCall =>
      distinct toolCall.value = true ∧ readers.toolCall toolCall.value = some toolCall
  | .toolCallUpdated update =>
      distinct update.value = true ∧ readers.toolCallUpdate update.value = some update
  | .planUpdated plan =>
      distinct plan.value = true ∧ readers.plan plan.value = some plan ∧
        ∃ es, plan.value = .obj es ∧ ∀ key ∈ keys es, key ∈ planFields
  | .unknown _ _ => False
  | _ => True

/-- A cost is a number, and its text is read as that number. -/
def AgentEventKind.CostReads (readers : Readers) : AgentEventKind → Prop
  | .usageUpdated usage =>
      ∀ cost, usage.costUsd = some cost → ∃ text, cost = .finite text ∧ readers.f64 text = cost
  | _ => True

theorem decodeVec_modelOptions (options : List ModelOption) :
    decodeVec ModelOption.decode (.arr (options.map ModelOption.encode)) = some options := by
  induction options with
  | nil => rfl
  | cons o rest ih =>
      have hone : ModelOption.decode o.encode = some o := by
        simp [ModelOption.encode, ModelOption.decode, field, decodeString]
      simp only [decodeVec, List.map_cons, List.mapM_cons, hone] at ih ⊢
      rw [ih]
      rfl

theorem decodeVec_agentCommands (commands : List AgentCommand) :
    decodeVec AgentCommand.decode (.arr (commands.map AgentCommand.encode)) = some commands := by
  induction commands with
  | nil => rfl
  | cons c rest ih =>
      have hone : AgentCommand.decode c.encode = some c := by
        simp [AgentCommand.encode, AgentCommand.decode, field, decodeString]
      simp only [decodeVec, List.map_cons, List.mapM_cons, hone] at ih ⊢
      rw [ih]
      rfl

/-- A known kind that is no tool call reads back through the mirror. -/
theorem decode_of_mirror {readers : Readers} (known : KnownKind) {es : Entries} {tag : String}
    (htag : tag ≠ "tool_call_started" ∧ tag ≠ "tool_call_updated")
    (hdistinct : distinct (.obj (("kind", .str tag) :: es)) = true)
    (hknown : KnownKind.decode readers (.obj (("kind", .str tag) :: es)) = some known) :
    AgentEventKind.decode readers (("kind", .str tag) :: es) = AgentEventKind.fromKnown known := by
  rw [distinct, Bool.and_eq_true, decide_eq_true_eq] at hdistinct
  have htagged : AgentEventKind.eventTag (("kind", .str tag) :: es) = tag := by
    simp [AgentEventKind.eventTag, decodeString]
  rw [AgentEventKind.decode, collapseEntries_of_distinct _ hdistinct.2, AgentEventKind.fromEntries,
    htagged]
  split
  · exact absurd rfl htag.1
  · exact absurd rfl htag.2
  · rw [AgentEventKind.fromMap, ofEntries_of_nodup hdistinct.1, hknown]

/-- Items that are distinct one by one. -/
theorem distinctItems_iff {items : List Json} :
    distinctItems items = true ↔ ∀ item ∈ items, distinct item = true := by
  induction items with
  | nil => simp [distinctItems]
  | cons item rest ih =>
      rw [distinctItems, Bool.and_eq_true, ih]
      simp

/-- A payload that the library takes is the event's, in both shapes. -/
theorem decode_toolCallStarted {readers : Readers} {es : Entries} {toolCall : ToolCall}
    (htag : AgentEventKind.eventTag (collapseEntries es) = "tool_call_started")
    (hpayload : AgentEventKind.toolPayload readers.toolCall (collapseEntries es) "tool_call"
      = some toolCall) :
    AgentEventKind.decode readers es = .toolCallStarted toolCall := by
  rw [AgentEventKind.decode, AgentEventKind.fromEntries, htag]
  simp only [hpayload]

theorem decode_toolCallUpdated {readers : Readers} {es : Entries} {update : ToolCallUpdate}
    (htag : AgentEventKind.eventTag (collapseEntries es) = "tool_call_updated")
    (hpayload : AgentEventKind.toolPayload readers.toolCallUpdate (collapseEntries es)
      "tool_call_update" = some update) :
    AgentEventKind.decode readers es = .toolCallUpdated update := by
  rw [AgentEventKind.decode, AgentEventKind.fromEntries, htag]
  simp only [hpayload]

/-- The entries of a plan beside the tag are its own. -/
theorem decode_planUpdated {readers : Readers} {plan : Plan} {es : Entries}
    (hvalue : plan.value = .obj es) (hdistinct : distinct plan.value = true)
    (hkeys : ∀ key ∈ keys es, key ∈ planFields) (hplan : readers.plan plan.value = some plan) :
    AgentEventKind.decode readers (("kind", .str "plan_updated") :: es) = .planUpdated plan := by
  have hkind : "kind" ∉ keys es := fun hmem => by simpa [planFields] using hkeys "kind" hmem
  rw [hvalue] at hdistinct hplan
  refine decode_of_mirror (.planUpdated plan) (by decide) ?_ ?_
  · rw [distinct, Bool.and_eq_true, decide_eq_true_eq] at hdistinct ⊢
    refine ⟨?_, hdistinct.2⟩
    rw [keys, List.map_cons, List.nodup_cons]
    exact ⟨hkind, hdistinct.1⟩
  · have hself : es.filter (·.1 != "kind") = es := by
      refine List.filter_eq_self.2 fun entry hentry => ?_
      have hne : entry.1 ≠ "kind" := fun heq => hkind (heq ▸ mem_keys_of_mem hentry)
      simpa using hne
    have htag : field (("kind", .str "plan_updated") :: es) "kind" decodeString
        = some "plan_updated" := by
      show field ([("kind", .str "plan_updated")] ++ es) "kind" decodeString = _
      rw [field_append hkind]
      rfl
    rw [KnownKind.decode, internallyTagged, htag]
    simp [hself, KnownKind.decodePayload, hplan]

/-- A cost as it reads back. -/
def F64.readBack (readF64 : String → F64) (cost : Option F64) : Option F64 :=
  cost.bind fun cost => F64.decode readF64 cost.encode

/-- A snapshot reads back, up to its cost. -/
theorem decode_usageUpdated {readers : Readers} {usage : UsageSnapshot}
    (hfits : (AgentEventKind.usageUpdated usage).PayloadFits) :
    AgentEventKind.decode readers (("kind", .str "usage_updated") :: usage.encode) =
      .usageUpdated { usage with costUsd := F64.readBack readers.f64 usage.costUsd } := by
  obtain ⟨tokensUsed, tokensTotal, costUsd⟩ := usage
  have hused : decodeU64 (encodeU64 tokensUsed) = some tokensUsed := decodeU64_encodeU64 hfits.1
  have htotal : decodeU64 (encodeU64 tokensTotal) = some tokensTotal := decodeU64_encodeU64 hfits.2
  refine decode_of_mirror (.usageUpdated _) (by decide) ?_ ?_
  · cases costUsd with
    | none => simp [distinct, distinctEntries, keys, UsageSnapshot.encode, encodeU64]
    | some cost =>
        cases cost <;>
          simp [distinct, distinctEntries, keys, UsageSnapshot.encode, encodeU64, F64.encode]
  · have hread : UsageSnapshot.decode readers.f64
        (UsageSnapshot.encode ⟨tokensUsed, tokensTotal, costUsd⟩) =
          some ⟨tokensUsed, tokensTotal, F64.readBack readers.f64 costUsd⟩ := by
      cases costUsd with
      | none => simp [UsageSnapshot.decode, UsageSnapshot.encode, field, optionalField, hused, htotal,
          F64.readBack]
      | some cost =>
          cases cost <;>
            simp [UsageSnapshot.decode, UsageSnapshot.encode, field, optionalField, hused, htotal,
              F64.readBack, F64.encode, F64.decode]
    show (UsageSnapshot.decode readers.f64
      (UsageSnapshot.encode ⟨tokensUsed, tokensTotal, costUsd⟩)).map KnownKind.usageUpdated = _
    rw [hread]
    rfl

/-- What is written for a known kind reads back as it, and no key of it
is one of the envelope's. -/
theorem AgentEventKind.decode_encode {readers : Readers} {kind : AgentEventKind}
    (hfits : kind.PayloadFits) (hreadable : kind.Readable readers)
    (hcost : kind.CostReads readers) :
    ∃ es, kind.encode = some es ∧ (∀ key ∈ keys es, key ∉ envelopeKeys) ∧
      AgentEventKind.decode readers es = kind := by
  cases kind with
  | channelOpened resumed =>
      refine ⟨_, rfl, by simp [keys, envelopeKeys],
        decode_of_mirror (.channelOpened resumed) (by decide) ?_ ?_⟩
      · simp [distinct, distinctEntries, keys]
      · rfl
  | chunk text role =>
      refine ⟨_, rfl, by simp [keys, envelopeKeys],
        decode_of_mirror (.chunk text role) (by decide) ?_ ?_⟩
      · cases role <;> simp [distinct, distinctEntries, keys, ChunkRole.encode]
      · cases role <;> rfl
  | toolCallStarted toolCall =>
      refine ⟨_, rfl, by simp [keys, envelopeKeys], decode_toolCallStarted rfl ?_⟩
      show readers.toolCall (collapse toolCall.value) = some toolCall
      rw [collapse_of_distinct _ hreadable.1, hreadable.2]
  | toolCallUpdated update =>
      refine ⟨_, rfl, by simp [keys, envelopeKeys], decode_toolCallUpdated rfl ?_⟩
      show readers.toolCallUpdate (collapse update.value) = some update
      rw [collapse_of_distinct _ hreadable.1, hreadable.2]
  | planUpdated plan =>
      obtain ⟨hdistinct, hplan, es, hvalue, hkeys⟩ := hreadable
      refine ⟨("kind", .str "plan_updated") :: es, ?_, ?_,
        decode_planUpdated hvalue hdistinct hkeys hplan⟩
      · simp [AgentEventKind.encode, AgentEventKind.asKnown, KnownKind.encode, hvalue]
      · intro key hkey
        obtain rfl | hkey := List.mem_cons.1 hkey
        · decide
        · -- The fields of a plan are none of the envelope's.
          have hfield := hkeys key hkey
          simp only [planFields, List.mem_cons, List.not_mem_nil, or_false] at hfield
          obtain rfl | rfl := hfield <;> decide
  | modeChanged mode =>
      refine ⟨_, rfl, by simp [keys, envelopeKeys],
        decode_of_mirror (.modeChanged mode) (by decide) ?_ ?_⟩
      · simp [distinct, distinctEntries, keys]
      · rfl
  | modelChanged model =>
      refine ⟨_, rfl, by simp [keys, envelopeKeys],
        decode_of_mirror (.modelChanged model) (by decide) ?_ ?_⟩
      · simp [distinct, distinctEntries, keys]
      · rfl
  | modelsAvailable current options =>
      refine ⟨_, rfl, by simp [keys, envelopeKeys],
        decode_of_mirror (.modelsAvailable current options) (by decide) ?_ ?_⟩
      · simp [distinct, distinctEntries, keys, distinctItems_iff, ModelOption.encode]
      · simp [KnownKind.decode, internallyTagged, field, decodeString, KnownKind.decodePayload,
          decodeVec_modelOptions]
  | availableCommands commands =>
      refine ⟨_, rfl, by simp [keys, envelopeKeys],
        decode_of_mirror (.availableCommands commands) (by decide) ?_ ?_⟩
      · simp [distinct, distinctEntries, keys, distinctItems_iff, AgentCommand.encode]
      · simp [KnownKind.decode, internallyTagged, field, decodeString, KnownKind.decodePayload,
          decodeVec_agentCommands]
  | usageUpdated usage =>
      refine ⟨("kind", .str "usage_updated") :: usage.encode, rfl,
        by simp [keys, envelopeKeys, UsageSnapshot.encode], ?_⟩
      have hsame : F64.readBack readers.f64 usage.costUsd = usage.costUsd := by
        obtain ⟨tokensUsed, tokensTotal, costUsd⟩ := usage
        cases costUsd with
        | none => rfl
        | some cost =>
            obtain ⟨text, rfl, hread⟩ := hcost cost rfl
            show some (readers.f64 text) = some (.finite text)
            rw [hread]
      rw [decode_usageUpdated hfits, hsame]
  | notice level msg =>
      refine ⟨_, rfl, by simp [keys, envelopeKeys],
        decode_of_mirror (.notice level msg) (by decide) ?_ ?_⟩
      · cases level <;> simp [distinct, distinctEntries, keys, NoticeKind.encode]
      · cases level <;> rfl
  | userMessage text =>
      refine ⟨_, rfl, by simp [keys, envelopeKeys],
        decode_of_mirror (.userMessage text) (by decide) ?_ ?_⟩
      · simp [distinct, distinctEntries, keys]
      · rfl
  | turnEnded outcome =>
      refine ⟨_, rfl, by simp [keys, envelopeKeys],
        decode_of_mirror (.turnEnded outcome) (by decide) ?_ ?_⟩
      · cases outcome <;> simp [distinct, distinctEntries, keys, TurnOutcome.encode]
      · cases outcome <;> rfl
  | compactedSummary throughTurn summary =>
      refine ⟨_, rfl, by simp [keys, envelopeKeys],
        decode_of_mirror (.compactedSummary throughTurn summary) (by decide) ?_ ?_⟩
      · simp [distinct, distinctEntries, keys, encodeU64]
      · have hthrough : throughTurn ≤ u64Max := hfits
        simp [KnownKind.decode, internallyTagged, field, decodeString, KnownKind.decodePayload,
          hthrough]
  | unknown tag raw => exact hreadable.elim

/-! ### Unknown kinds -/

/-- An object with this envelope and a kind this build does not know, in
which no key is there twice. -/
structure UnknownObject (e : AgentEvent) (tag : String) (es : Entries) : Prop where
  distinct : distinct (.obj es) = true
  envelope : ∀ entry ∈ e.envelope, entry ∈ es
  kind : ("kind", .str tag) ∈ es
  unknown : tag ∉ KnownKind.tags

/-- The entries that are the kind's: all but the envelope. -/
def payloadEntries (es : Entries) : Entries :=
  es.filter fun entry => decide (entry.1 ∉ envelopeKeys)

/-- The event such an object is read as. -/
def AgentEvent.asUnknown (e : AgentEvent) (tag : String) (es : Entries) : AgentEvent :=
  { e with kind := .unknown tag (.obj (payloadEntries es)) }

theorem decodePayload_unknown (readers : Readers) (es : Entries) {tag : String}
    (htag : tag ∉ KnownKind.tags) : KnownKind.decodePayload readers es tag = none := by
  unfold KnownKind.decodePayload
  split <;> first | rfl | exact absurd (by decide) htag

namespace UnknownObject

variable {e : AgentEvent} {tag : String} {es es' : Entries}

theorem nodup (h : UnknownObject e tag es) : (keys es).Nodup := by
  have hdistinct := h.distinct
  rw [Json.distinct, Bool.and_eq_true, decide_eq_true_eq] at hdistinct
  exact hdistinct.1

theorem distinctEntries (h : UnknownObject e tag es) : Json.distinctEntries es = true := by
  have hdistinct := h.distinct
  rw [Json.distinct, Bool.and_eq_true] at hdistinct
  exact hdistinct.2

/-- The order of the entries does not matter. -/
theorem perm (h : UnknownObject e tag es) (hperm : es.Perm es') : UnknownObject e tag es' where
  distinct := by
    rw [Json.distinct, Bool.and_eq_true, decide_eq_true_eq, distinctEntries_iff]
    refine ⟨(hperm.map Prod.fst).nodup_iff.1 h.nodup, fun entry hentry => ?_⟩
    exact distinctEntries_iff.1 h.distinctEntries entry (hperm.mem_iff.2 hentry)
  envelope := fun entry hentry => hperm.mem_iff.1 (h.envelope entry hentry)
  kind := hperm.mem_iff.1 h.kind
  unknown := h.unknown

theorem kind_mem_payload (h : UnknownObject e tag es) :
    ("kind", .str tag) ∈ payloadEntries es := by
  simp [payloadEntries, envelopeKeys, h.kind]

theorem payload_nodup (h : UnknownObject e tag es) : (keys (payloadEntries es)).Nodup :=
  h.nodup.sublist (List.filter_sublist.map _)

/-- The mirror takes no such kind, so it is kept. -/
theorem decode_payload (readers : Readers) (h : UnknownObject e tag es) :
    AgentEventKind.decode readers (payloadEntries es) =
      .unknown tag (.obj (payloadEntries es)) := by
  have hdistinct : Json.distinctEntries (payloadEntries es) = true := by
    rw [distinctEntries_iff]
    intro entry hentry
    exact distinctEntries_iff.1 h.distinctEntries entry (List.mem_of_mem_filter hentry)
  have htag : AgentEventKind.eventTag (payloadEntries es) = tag := by
    rw [AgentEventKind.eventTag, ← List.head?_filter,
      filter_key_of_mem h.payload_nodup h.kind_mem_payload]
    rfl
  have hknown : KnownKind.decode readers (.obj (payloadEntries es)) = none := by
    rw [KnownKind.decode, internallyTagged, field_of_mem h.payload_nodup h.kind_mem_payload]
    exact decodePayload_unknown readers _ h.unknown
  rw [AgentEventKind.decode, collapseEntries_of_distinct _ hdistinct, AgentEventKind.fromEntries,
    htag]
  -- The tags of the tool calls are known ones.
  split
  · exact absurd (by decide) h.unknown
  · exact absurd (by decide) h.unknown
  · rw [AgentEventKind.fromMap, ofEntries_of_nodup h.payload_nodup, hknown, htag]

theorem decodes (readers : Readers) (hfits : e.EnvelopeFits) (h : UnknownObject e tag es) :
    Decodes readers (.obj es) (e.asUnknown tag es) := by
  have henvelope : ∀ entry ∈ e.envelope, es.filter (·.1 == entry.1) = [entry] :=
    fun entry hentry => filter_key_of_mem h.nodup (h.envelope entry hentry)
  have hkind := h.decode_payload readers
  rw [payloadEntries] at hkind
  rw [decodes_iff, decode_of_envelope readers hfits henvelope, hkind]
  rfl

/-- What goes out for it. -/
def reemitted (e : AgentEvent) (tag : String) (es : Entries) : Entries :=
  e.envelope ++ ("kind", .str tag) :: (payloadEntries es).filter (·.1 != "kind")

theorem encode_asUnknown (e : AgentEvent) (tag : String) (es : Entries) :
    (e.asUnknown tag es).encode = some (.obj (reemitted e tag es)) := rfl

/-- Every entry goes out, and none besides. -/
theorem mem_reemitted (h : UnknownObject e tag es) (entry : String × Json) :
    entry ∈ reemitted e tag es ↔ entry ∈ es := by
  constructor
  · intro hmem
    obtain hmem | hmem := List.mem_append.1 hmem
    · exact h.envelope entry hmem
    obtain rfl | hmem := List.mem_cons.1 hmem
    · exact h.kind
    · exact List.mem_of_mem_filter (List.mem_of_mem_filter hmem)
  · intro hmem
    obtain ⟨key, value⟩ := entry
    rw [reemitted, List.mem_append, List.mem_cons]
    by_cases hkey : key ∈ envelopeKeys
    · -- A field of the envelope: the object has it once.
      left
      obtain ⟨value', henvelope⟩ : ∃ value', (key, value') ∈ e.envelope := by
        have hmap : keys e.envelope = envelopeKeys := rfl
        rw [← hmap, keys, List.mem_map] at hkey
        obtain ⟨entry, hentry, rfl⟩ := hkey
        exact ⟨entry.2, hentry⟩
      rw [value_unique h.nodup hmem (h.envelope _ henvelope)]
      exact henvelope
    · right
      have hpayload : (key, value) ∈ payloadEntries es :=
        List.mem_filter.2 ⟨hmem, decide_eq_true hkey⟩
      by_cases hkind : key = "kind"
      · left
        subst hkind
        rw [value_unique h.nodup hmem h.kind]
      · right
        exact List.mem_filter.2 ⟨hpayload, by simpa using hkind⟩

theorem perm_reemitted (h : UnknownObject e tag es) : es.Perm (reemitted e tag es) := by
  have hnodup : es.Nodup := List.Nodup.of_map Prod.fst h.nodup
  have hout : (reemitted e tag es).Nodup := by
    refine List.Nodup.of_map Prod.fst ?_
    rw [reemitted, List.map_append, List.map_cons, List.nodup_append, List.nodup_cons]
    refine ⟨by simp [AgentEvent.envelope], ⟨?_, ?_⟩, ?_⟩
    · simp
    · exact h.payload_nodup.sublist (List.filter_sublist.map _)
    · rintro key hkey key' hkey' rfl
      -- No key of the payload is one of the envelope's.
      have hmap : e.envelope.map Prod.fst = envelopeKeys := rfl
      rw [hmap] at hkey
      obtain rfl | hkey' := List.mem_cons.1 hkey'
      · simp [envelopeKeys] at hkey
      · obtain ⟨entry, hentry, rfl⟩ := List.mem_map.1 hkey'
        have hpayload := (List.mem_filter.1 (List.mem_of_mem_filter hentry)).2
        exact of_decide_eq_true hpayload hkey
  exact (List.perm_ext_iff_of_nodup hnodup hout).2 fun entry => (h.mem_reemitted entry).symm

end UnknownObject

/-! ### Flat tool calls -/

/-- The flat form of older builds: the envelope, the tag as the first
`kind`, and around it the fields of the tool, one of which may be a
second `kind`. -/
structure FlatToolCall (e : AgentEvent) (tag nestedKey : String) (tool es : Entries) : Prop where
  envelope : ∀ entry ∈ e.envelope, es.filter (·.1 == entry.1) = [entry]
  tagged : ∃ front back, payloadEntries es = front ++ ("kind", .str tag) :: back ∧
    "kind" ∉ keys front ∧ front ++ back = tool
  flat : nestedKey ∉ keys tool

/-- The form of this build: the fields of the tool under a key of their
own. -/
def nestedToolCall (e : AgentEvent) (tag nestedKey : String) (tool : Entries) : Entries :=
  e.envelope ++ [("kind", .str tag), (nestedKey, .obj tool)]

theorem collapseEntries_append (es es' : Entries) :
    collapseEntries (es ++ es') = collapseEntries es ++ collapseEntries es' := by
  induction es with
  | nil => rfl
  | cons entry rest ih =>
      obtain ⟨key, value⟩ := entry
      show (key, collapse value) :: collapseEntries (rest ++ es') = _
      rw [ih]
      rfl

theorem find_key_of_not_mem {es : Entries} {key : String} (h : key ∉ keys es) :
    es.find? (·.1 == key) = none := by
  rw [← List.head?_filter, filter_key_of_not_mem h]
  rfl

/-- The tag goes, and a later `kind` stays. -/
theorem dropTag_append {front back : Entries} {value : Json} (h : "kind" ∉ keys front) :
    AgentEventKind.dropTag (front ++ ("kind", value) :: back) = front ++ back := by
  induction front with
  | nil => rfl
  | cons entry rest ih =>
      rw [keys, List.map_cons, List.mem_cons, not_or] at h
      rw [List.cons_append, AgentEventKind.dropTag, if_neg (by simpa using Ne.symm h.1), ih h.2]
      rfl

namespace FlatToolCall

variable {e : AgentEvent} {tag nestedKey : String} {tool es : Entries}

theorem eventTag (h : FlatToolCall e tag nestedKey tool es) :
    AgentEventKind.eventTag (collapseEntries (payloadEntries es)) = tag := by
  obtain ⟨front, back, hes, hfront, -⟩ := h.tagged
  have hnone : (collapseEntries front).find? (·.1 == "kind") = none :=
    find_key_of_not_mem (by rwa [keys_collapseEntries])
  rw [hes, collapseEntries_append, AgentEventKind.eventTag, List.find?_append, hnone]
  rfl

/-- The payload is the object of the tool's fields. -/
theorem toolPayload {α : Type} (decode : Json → Option α) (hnested : nestedKey ≠ "kind")
    (h : FlatToolCall e tag nestedKey tool es) :
    AgentEventKind.toolPayload decode (collapseEntries (payloadEntries es)) nestedKey =
      decode (collapse (.obj tool)) := by
  obtain ⟨front, back, hes, hfront, rfl⟩ := h.tagged
  have hflat : nestedKey ∉ keys (collapseEntries (payloadEntries es)) := by
    have hkeys := h.flat
    rw [keys, List.map_append, List.mem_append, not_or] at hkeys
    rw [keys_collapseEntries, hes, keys, List.map_append, List.map_cons, List.mem_append,
      List.mem_cons]
    rintro (hmem | heq | hmem)
    · exact hkeys.1 hmem
    · exact hnested heq
    · exact hkeys.2 hmem
  rw [AgentEventKind.toolPayload, find_key_of_not_mem hflat, hes, collapseEntries_append]
  show decode (.obj (ofEntries (AgentEventKind.dropTag (collapseEntries front ++
    ("kind", .str tag) :: collapseEntries back)))) = _
  rw [dropTag_append (by rwa [keys_collapseEntries]), ← collapseEntries_append]
  rfl

end FlatToolCall

/-- The payload of the nested form. -/
theorem toolPayload_nested {α : Type} (decode : Json → Option α) (tag : String) {nestedKey : String}
    (hnested : nestedKey ≠ "kind") (tool : Entries) :
    AgentEventKind.toolPayload decode
      (collapseEntries [("kind", .str tag), (nestedKey, .obj tool)]) nestedKey =
      decode (collapse (.obj tool)) := by
  have hkind : ("kind" == nestedKey) = false := by simpa using Ne.symm hnested
  have hfind : List.find? (·.1 == nestedKey)
      [("kind", .str tag), (nestedKey, collapse (.obj tool))] =
        some (nestedKey, collapse (.obj tool)) := by
    rw [List.find?_cons_of_neg (by simpa using hkind), List.find?_cons_of_pos (by simp)]
  have hentries : collapseEntries [("kind", .str tag), (nestedKey, .obj tool)] =
      [("kind", .str tag), (nestedKey, collapse (.obj tool))] := rfl
  rw [hentries, AgentEventKind.toolPayload, hfind]

/-! ### The codec -/

/-- An event of a known kind reads back as itself. -/
theorem AgentEvent.decodes_encode {readers : Readers} {e : AgentEvent} (hfits : e.EnvelopeFits)
    (hpayload : e.kind.PayloadFits) (hreadable : e.kind.Readable readers)
    (hcost : e.kind.CostReads readers) : ∃ j, e.encode = some j ∧ Decodes readers j e := by
  obtain ⟨es, hencode, hkeys, hdecode⟩ :=
    AgentEventKind.decode_encode hpayload hreadable hcost
  refine ⟨.obj (e.envelope ++ es), ?_, ?_⟩
  · rw [AgentEvent.encode, hencode]
    rfl
  · rw [decodes_iff, decode_encoded readers hfits hkeys, hdecode]

/-- Both forms of a tool call read as it. -/
theorem FlatToolCall.started {readers : Readers} {e : AgentEvent} {tool es : Entries}
    {toolCall : ToolCall} (hfits : e.EnvelopeFits)
    (h : FlatToolCall e "tool_call_started" "tool_call" tool es)
    (htool : readers.toolCall (collapse (.obj tool)) = some toolCall) :
    Decodes readers (.obj es) { e with kind := .toolCallStarted toolCall } ∧
      Decodes readers (.obj (nestedToolCall e "tool_call_started" "tool_call" tool))
        { e with kind := .toolCallStarted toolCall } := by
  have hflat : AgentEventKind.decode readers (payloadEntries es) = .toolCallStarted toolCall :=
    decode_toolCallStarted h.eventTag (by rw [h.toolPayload _ (by decide), htool])
  have hnested : AgentEventKind.decode readers
      [("kind", .str "tool_call_started"), ("tool_call", .obj tool)] = .toolCallStarted toolCall :=
    decode_toolCallStarted rfl (by rw [toolPayload_nested _ _ (by decide), htool])
  rw [payloadEntries] at hflat
  rw [decodes_iff, decodes_iff, decode_of_envelope readers hfits h.envelope, hflat, nestedToolCall,
    decode_encoded readers hfits (by simp [keys, envelopeKeys]), hnested]
  exact ⟨rfl, rfl⟩

theorem FlatToolCall.updated {readers : Readers} {e : AgentEvent} {tool es : Entries}
    {update : ToolCallUpdate} (hfits : e.EnvelopeFits)
    (h : FlatToolCall e "tool_call_updated" "tool_call_update" tool es)
    (htool : readers.toolCallUpdate (collapse (.obj tool)) = some update) :
    Decodes readers (.obj es) { e with kind := .toolCallUpdated update } ∧
      Decodes readers (.obj (nestedToolCall e "tool_call_updated" "tool_call_update" tool))
        { e with kind := .toolCallUpdated update } := by
  have hflat : AgentEventKind.decode readers (payloadEntries es) = .toolCallUpdated update :=
    decode_toolCallUpdated h.eventTag (by rw [h.toolPayload _ (by decide), htool])
  have hnested : AgentEventKind.decode readers
      [("kind", .str "tool_call_updated"), ("tool_call_update", .obj tool)] =
        .toolCallUpdated update :=
    decode_toolCallUpdated rfl (by rw [toolPayload_nested _ _ (by decide), htool])
  rw [payloadEntries] at hflat
  rw [decodes_iff, decodes_iff, decode_of_envelope readers hfits h.envelope, hflat, nestedToolCall,
    decode_encoded readers hfits (by simp [keys, envelopeKeys]), hnested]
  exact ⟨rfl, rfl⟩

namespace Sample

/-- The object, when these keys are in it. -/
def requireKeys (required : List String) : Json → Option Json
  | .obj es => if ∀ key ∈ required, key ∈ keys es then some (.obj es) else none
  | _ => none

def readers : Readers where
  toolCall j := (requireKeys ["toolCallId", "title"] j).map ToolCall.mk
  toolCallUpdate j := (requireKeys ["toolCallId"] j).map ToolCallUpdate.mk
  plan j := (requireKeys ["entries"] j).map Plan.mk
  f64 := .finite

/-- An event with a usage snapshot. -/
def usage (cost : Option F64) : AgentEvent :=
  ⟨"s1", 3, 7, 42, .usageUpdated ⟨10, 200, cost⟩⟩

/-- The envelope with entries before and after it. -/
def around (front back : Entries) : Entries := front ++ (usage none).envelope ++ back

def hologram : Entries :=
  around [("kind", .str "hologram")] [("depth", .num "2"), ("scene", .obj [("kind", .str "cube")])]

/-- A flat tool call: the tag, and the category of the tool as a second
`kind`. -/
def flat (tag : String) : Entries :=
  around [("kind", .str tag), ("toolCallId", .str "t1")]
    [("title", .str "grep"), ("kind", .str "search")]

def tool : Entries := [("toolCallId", .str "t1"), ("title", .str "grep"), ("kind", .str "search")]

end Sample

end Yaldabaoth
