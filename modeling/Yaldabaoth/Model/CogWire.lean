import Mathlib.Data.List.Basic
import Yaldabaoth.Model.Provider

/-!
# `Yaldabaoth.Model.CogWire`: the runtime-delivery protocol

The part of `cog_runtime/wire.rs` and of `CogClient` that the delivery
coordinator speaks: the views, requests and answers of the Cog server,
and the errors a call can end with. A decimal u64 is a number here, and
a field that no modelled function reads is left out.
-/

set_option autoImplicit false

namespace Yaldabaoth

/-! ### Values -/

/-- Opaque ids are ordered by their text. -/
instance : Ord OpaqueId := ⟨fun a b => compare a.value b.value⟩

instance : Std.TransOrd OpaqueId := inferInstanceAs (Std.TransCmp (compareOn OpaqueId.value))

instance : Std.LawfulEqOrd OpaqueId where
  eq_of_compare := by
    intro a b h
    have hvalue := (Std.compare_eq_iff_eq (a := a.value) (b := b.value)).1 h
    cases a
    cases b
    cases hvalue
    rfl

/-- A map under opaque ids, iterated in their order. -/
abbrev IdMap (β : Type) : Type := Std.TreeMap OpaqueId β

namespace IdMap

variable {β : Type} (m : IdMap β) (k a : OpaqueId) (v : β)

theorem get_insert : (m.insert k v)[a]? = if k = a then some v else m[a]? := by
  simp [Std.TreeMap.getElem?_insert]

@[simp] theorem get_insert_self : (m.insert k v)[k]? = some v := by
  rw [get_insert, if_pos rfl]

theorem get_erase : (m.erase k)[a]? = if k = a then none else m[a]? := by
  simp [Std.TreeMap.getElem?_erase]

end IdMap

/-- 64 lowercase hexadecimal characters. -/
def isSha256 (text : String) : Bool :=
  text.toList.length == 64 && text.toList.all fun ch => ch.isDigit || ('a' ≤ ch && ch ≤ 'f')

structure Sha256Digest where
  text : String
  valid : isSha256 text = true
deriving DecidableEq

/-- A lowercase RFC4122 UUID, as text. -/
structure ProtocolUuid where
  text : String
deriving Repr, DecidableEq

/-- A UTC timestamp with nine fractional digits, as text. -/
structure Timestamp where
  text : String
deriving Repr, DecidableEq

inductive SourceKind where
  | mail
  | chat
deriving Repr, DecidableEq

/-- The name the `Debug` format gives a source kind. -/
def SourceKind.debug : SourceKind → String
  | .mail => "Mail"
  | .chat => "Chat"

/-- The name the `Debug` format gives a provider kind. -/
def ProviderKind.debug : ProviderKind → String
  | .codex => "Codex"
  | .claude => "Claude"

/-! ### Errors -/

inductive ErrorCode where
  | invalidRequest
  | invalidCapacity
  | invalidLeaseSeconds
  | hostNotFound
  | addressNotFound
  | attemptNotFound
  | hostLeaseConflict
  | staleHostFence
  | staleOwnerGeneration
  | staleAttemptFence
  | attemptLeaseExpired
  | attemptAlreadyTerminal
  | idempotencyConflict
  | cursorConflict
  | retiredAddress
  | unsupportedContractValue
  | protocolVersionUnsupported
  | temporarilyUnavailable
deriving Repr, DecidableEq

/-- The name the `Debug` format gives an error code. -/
def ErrorCode.debug : ErrorCode → String
  | .invalidRequest => "InvalidRequest"
  | .invalidCapacity => "InvalidCapacity"
  | .invalidLeaseSeconds => "InvalidLeaseSeconds"
  | .hostNotFound => "HostNotFound"
  | .addressNotFound => "AddressNotFound"
  | .attemptNotFound => "AttemptNotFound"
  | .hostLeaseConflict => "HostLeaseConflict"
  | .staleHostFence => "StaleHostFence"
  | .staleOwnerGeneration => "StaleOwnerGeneration"
  | .staleAttemptFence => "StaleAttemptFence"
  | .attemptLeaseExpired => "AttemptLeaseExpired"
  | .attemptAlreadyTerminal => "AttemptAlreadyTerminal"
  | .idempotencyConflict => "IdempotencyConflict"
  | .cursorConflict => "CursorConflict"
  | .retiredAddress => "RetiredAddress"
  | .unsupportedContractValue => "UnsupportedContractValue"
  | .protocolVersionUnsupported => "ProtocolVersionUnsupported"
  | .temporarilyUnavailable => "TemporarilyUnavailable"

structure ApiError where
  code : ErrorCode
  message : String
deriving Repr, DecidableEq

/-- What a call to the Cog server can end with. -/
inductive ClientError where
  | transport (message : String)
  | api (status : Nat) (error : ApiError)
  /-- `body` is without the white space around it. -/
  | unexpectedStatus (status : Nat) (body : String)
  /-- `actual` is the `Debug` text of the header found. -/
  | invalidContentType (expected actual : String)
  | decode (message : String)
  | sse (message : String)
deriving Repr, DecidableEq

namespace ClientError

/-- The `Display` text. -/
def display : ClientError → String
  | .transport message | .decode message | .sse message => message
  | .api status error => s!"Cog HTTP {status} {error.code.debug}: {error.message}"
  | .unexpectedStatus status body => s!"Cog HTTP {status}: {body}"
  | .invalidContentType expected actual => s!"expected Content-Type {expected}, got {actual}"

/-- `api_code`. -/
def apiCode : ClientError → Option ErrorCode
  | .api _ error => some error.code
  | _ => none

/-- `is_attempt_terminal_error`. -/
def isAttemptTerminal (error : ClientError) : Bool :=
  error.apiCode == some .attemptAlreadyTerminal || error.apiCode == some .retiredAddress

end ClientError

/-! ### Attempts -/

structure AttemptCommon where
  attemptId : OpaqueId
  deliveryKey : OpaqueId
  payloadDigest : Sha256Digest
  attemptFence : Nat
  hostId : Option OpaqueId
  hostFence : Option Nat
  addressId : OpaqueId
  ownerGeneration : Nat
  /-- The two text blocks that `provider_blocks` of the envelope of this
  attempt gives. -/
  providerBlocks : Except String (List String)

inductive SupersessionReason where
  | chatLeft
  | addressRetired
  | operatorSkip
deriving Repr, DecidableEq

/-- The name the `Debug` format gives a supersession reason. -/
def SupersessionReason.debug : SupersessionReason → String
  | .chatLeft => "ChatLeft"
  | .addressRetired => "AddressRetired"
  | .operatorSkip => "OperatorSkip"

inductive AttemptStatus where
  | claimed
  | recoverable
  | retryWait
  | blocked
  | completed
  | superseded (reason : SupersessionReason)
deriving Repr, DecidableEq

structure AttemptView where
  common : AttemptCommon
  status : AttemptStatus

/-- `DeliveryEnvelope::from_attempt`. -/
def DeliveryEnvelope.fromAttempt (attempt : AttemptView) : DeliveryEnvelope :=
  { attemptId := attempt.common.attemptId, providerBlocks := attempt.common.providerBlocks }

/-! ### Capabilities -/

structure LimitRange where
  min : Nat
  max : Nat
deriving Repr, DecidableEq

structure CapabilityLimits where
  hostLeaseSeconds : LimitRange
  attemptLeaseSeconds : LimitRange
  maxClaimAttempts : Nat
  maxClaimEntries : Nat
  maxClaimContentBytes : Nat
deriving Repr, DecidableEq

structure Capabilities where
  protocolVersions : List String
  sourceKinds : List SourceKind
  providerKinds : List ProviderKind
  features : List String
  limits : CapabilityLimits
deriving Repr, DecidableEq

def protocolVersion : String := "1"

def requiredFeatures : List String :=
  ["durable-owner", "host-fence", "attempt-fence", "attempt-renew", "capacity-claim",
    "completion-receipt", "wake-sse", "source-cursor-vector-v1"]

/-- `Capabilities::compatibility_error`. -/
def Capabilities.compatibilityError (c : Capabilities) (providers : List ProviderKind) :
    Option String :=
  if protocolVersion ∉ c.protocolVersions then some "protocol version 1 is not advertised"
  else match [SourceKind.mail, SourceKind.chat].find? (· ∉ c.sourceKinds) with
    | some source => some s!"required source kind {source.debug} is missing"
    | none =>
      match providers.find? (· ∉ c.providerKinds) with
      | some provider => some s!"configured provider {provider.debug} is missing"
      | none =>
        (requiredFeatures.find? (· ∉ c.features)).map fun feature =>
          s!"required feature {feature} is missing"

inductive CapabilityProbe where
  | unavailable
  | available (capabilities : Capabilities)
deriving Repr, DecidableEq

/-! ### Leases and owners -/

structure HostLease where
  instanceId : ProtocolUuid
  hostFence : Nat
deriving Repr, DecidableEq

structure HostLeaseResponse where
  lease : HostLease
  live : Bool
deriving Repr, DecidableEq

inductive DeliveryOwner where
  | cogd (ownerGeneration : Nat)
  | external (hostId : OpaqueId) (ownerGeneration : Nat)
deriving DecidableEq

namespace DeliveryOwner

/-- `DeliveryOwner::generation`. -/
def generation : DeliveryOwner → Nat
  | .cogd ownerGeneration => ownerGeneration
  | .external _ ownerGeneration => ownerGeneration

/-- Whether the owner is this external host. -/
def isHost (hostId : OpaqueId) : DeliveryOwner → Bool
  | .cogd _ => false
  | .external owner _ => owner == hostId

end DeliveryOwner

/-! ### Requests -/

/-- `AttemptFenceRequest`. -/
structure Fences where
  instanceId : ProtocolUuid
  hostFence : Nat
  ownerGeneration : Nat
  attemptFence : Nat
deriving Repr, DecidableEq

structure LeaseAcquireRequest where
  instanceId : ProtocolUuid
  sourceKinds : List SourceKind
  providerKinds : List ProviderKind
  leaseSeconds : Nat
  takeover : Bool
  expectedHostFence : Option Nat
deriving Repr, DecidableEq

structure ClaimRequest where
  instanceId : ProtocolUuid
  hostFence : Nat
  availableAddresses : List OpaqueId
  maxAttempts : Nat
  maxEntries : Nat
  maxContentBytes : Nat
  attemptLeaseSeconds : Nat
deriving DecidableEq

structure AttemptCompleteRequest where
  fences : Fences
  idempotencyKey : ProtocolUuid
  provider : ProviderReceipt
deriving DecidableEq

structure AttemptFailRequest where
  fences : Fences
  idempotencyKey : ProtocolUuid
  failureClass : FailureClass
  retryable : Bool
  message : String
deriving DecidableEq

/-- A call of the client, with its path arguments and its body. -/
inductive CogRequest where
  | probeCapabilities
  | getHostLease (hostId : OpaqueId)
  | acquireHostLease (hostId : OpaqueId) (body : LeaseAcquireRequest)
  | renewHostLease (hostId : OpaqueId) (instanceId : ProtocolUuid) (hostFence leaseSeconds : Nat)
  | releaseHostLease (hostId : OpaqueId) (instanceId : ProtocolUuid) (hostFence : Nat)
  | getDeliveryOwner (addressId : OpaqueId)
  | putDeliveryOwner (addressId owner : OpaqueId) (expectedOwnerGeneration : Nat)
  | listOpenAttempts (hostId : OpaqueId) (limit : Nat) (after : Option OpaqueId)
  | getAttempt (attemptId : OpaqueId)
  | claim (hostId : OpaqueId) (body : ClaimRequest)
  | renewAttempt (attemptId : OpaqueId) (fences : Fences) (leaseSeconds : Nat)
  | releaseAttempt (attemptId : OpaqueId) (fences : Fences) (reason : String)
  | completeAttempt (attemptId : OpaqueId) (body : AttemptCompleteRequest)
  | failAttempt (attemptId : OpaqueId) (body : AttemptFailRequest)
deriving DecidableEq

/-! ### Answers -/

structure AttemptListResponse where
  attempts : List AttemptView
  nextPage : Option OpaqueId

structure ClaimResponse where
  attempts : List AttemptView
  remainingDue : Bool
  remainingIncompatible : Bool

end Yaldabaoth
