import Yaldabaoth.Model.Wire

/-!
# `Yaldabaoth.Model.Provider`: values of a provider delivery

The part of `cog_runtime/wire.rs` and `cog_runtime/provider.rs` that
both sides of a Cog delivery speak: opaque ids, the provider's kind,
the failure classes, and the terminal result the session server
answers a delivery with.
-/

set_option autoImplicit false

namespace Yaldabaoth

/-- A non-empty opaque identifier. -/
structure OpaqueId where
  value : String
  nonempty : value ≠ ""
deriving DecidableEq

namespace OpaqueId

/-- `OpaqueId::new`. -/
def new (value : String) : Except String OpaqueId :=
  if h : value ≠ "" then .ok { value, nonempty := h }
  else .error "opaque id must not be empty"

end OpaqueId

inductive ProviderKind where
  | codex
  | claude
deriving Repr, DecidableEq

inductive FailureClass where
  | providerUnavailable
  | providerRejected
  | timeout
  | cancelled
  | unsupportedContractValue
  | internal
deriving Repr, DecidableEq

structure ProviderReceipt where
  kind : ProviderKind
  sessionId : OpaqueId
  turnId : Option OpaqueId
  metadata : Option (List (String × Json))
deriving DecidableEq

structure ProviderDeliveryFailure where
  failureClass : FailureClass
  retryable : Bool
  message : String
deriving Repr, DecidableEq

inductive ProviderDeliveryResult where
  | succeeded (receipt : ProviderReceipt)
  | failed (failure : ProviderDeliveryFailure)
deriving DecidableEq

/-- What the session server reads of a delivery envelope: the attempt
it belongs to, and its two text blocks as the JSON library serializes
them (or that library's error). -/
structure DeliveryEnvelope where
  attemptId : OpaqueId
  providerBlocks : Except String (List String)

structure ProviderDeliveryRequest where
  serverSessionId : ServerSessionId
  provider : ProviderKind
  envelope : DeliveryEnvelope

/-- `PromptPayload::ordered_text_blocks`. -/
def PromptPayload.orderedTextBlocks (blocks : List String) : PromptPayload :=
  { text := String.intercalate "\n\n" blocks, textBlocks := blocks, images := [] }

end Yaldabaoth
