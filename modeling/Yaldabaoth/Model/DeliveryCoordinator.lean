import Yaldabaoth.Lib.Effect
import Yaldabaoth.Model.DeliveryJournal

/-!
# `Yaldabaoth.Model.DeliveryCoordinator`: leases, claims and dispatch

`cog_runtime/coordinator.rs`: the public operations of
`DeliveryCoordinator` and what they call. An operation is an `Effect`
on the running process, so that one that fails keeps what it did before
it failed.

Around the process stands `Surroundings`: what the Cog server answers
to each call, what becomes of each write to the journal, the clock and
the source of fresh UUIDs, all by the number of the call. The process
can die in any of them (`Halt.killed`). What it did that can be seen
from outside is listed in `CoordinatorRun.events`.
-/

set_option autoImplicit false

namespace Yaldabaoth

open LineLog

/-! ### The coordinator -/

structure RuntimeRoute where
  addressId : OpaqueId
  serverSessionId : ServerSessionId
  provider : ProviderKind
deriving DecidableEq

structure CoordinatorConfig where
  hostId : OpaqueId
  instanceId : ProtocolUuid
  routes : List RuntimeRoute
  hostLeaseSeconds : Nat
  attemptLeaseSeconds : Nat
  maxAttempts : Nat
  maxEntries : Nat
  maxContentBytes : Nat
  reconcileOwnership : Bool
  takeoverLiveHost : Bool

inductive ActivationStatus where
  | active (hostFence : Nat) (eligibleAddresses : List OpaqueId)
  | inertCapabilitiesUnavailable
deriving DecidableEq

inductive CapabilityStatus where
  | compatible
  | unavailable
deriving Repr, DecidableEq

structure DispatchAction where
  attemptId : OpaqueId
  request : ProviderDeliveryRequest

structure ClaimBatch where
  dispatches : List DispatchAction
  remainingDue : Bool
  remainingIncompatible : Bool

inductive CoordinatorError where
  | client (error : ClientError)
  | journal (error : JournalError)
  | contract (message : String)
  | inactive
deriving DecidableEq

inductive InflightPhase where
  | awaitingProvider (idempotencyKey : ProtocolUuid)
  | providerSucceeded (idempotencyKey : ProtocolUuid) (provider : ProviderReceipt)
  | providerFailed (idempotencyKey : ProtocolUuid) (failureClass : FailureClass)
      (retryable : Bool) (message : String)
deriving DecidableEq

namespace InflightPhase

/-- The journal state with the same data. -/
def journalState : InflightPhase → JournalState
  | .awaitingProvider key => .dispatchStarted key
  | .providerSucceeded key provider => .providerSucceeded key provider
  | .providerFailed key failureClass retryable message =>
      .providerFailed key failureClass retryable message

/-- `matches!(phase, AwaitingProvider { .. })`. -/
def isAwaiting : InflightPhase → Bool
  | .awaitingProvider _ => true
  | _ => false

/-- The phase a recorded provider result leads to. -/
def ofResult (key : ProtocolUuid) : ProviderDeliveryResult → InflightPhase
  | .succeeded provider => .providerSucceeded key provider
  | .failed failure =>
      .providerFailed key failure.failureClass failure.retryable failure.message

/-- The phase a reclaimed attempt takes up from its last record, when
that is a provider result. -/
def ofRecorded : JournalState → Option InflightPhase
  | .providerSucceeded key provider => some (.providerSucceeded key provider)
  | .providerFailed key failureClass retryable message =>
      some (.providerFailed key failureClass retryable message)
  | _ => none

end InflightPhase

/-- The provider result a terminal mutation reports, and the attempt it
reports it of. -/
def CogRequest.outcome : CogRequest → Option (OpaqueId × InflightPhase)
  | .completeAttempt attemptId body =>
      some (attemptId, .providerSucceeded body.idempotencyKey body.provider)
  | .failAttempt attemptId body =>
      some (attemptId,
        .providerFailed body.idempotencyKey body.failureClass body.retryable body.message)
  | _ => none

structure InflightAttempt where
  attempt : AttemptView
  phase : InflightPhase

structure DeliveryCoordinator where
  config : CoordinatorConfig
  journal : DeliveryJournal
  hostFence : Option Nat
  eligible : IdMap RuntimeRoute
  inflight : IdMap InflightAttempt

namespace DeliveryCoordinator

/-- `DeliveryCoordinator::new`. -/
def new (config : CoordinatorConfig) (journal : DeliveryJournal) : DeliveryCoordinator :=
  { config, journal, hostFence := none, eligible := ∅, inflight := ∅ }

/-- `configured_providers`: each provider once, in the order of the
routes. -/
def configuredProviders (c : DeliveryCoordinator) : List ProviderKind :=
  c.config.routes.foldl
    (fun providers route =>
      if route.provider ∈ providers then providers else providers ++ [route.provider]) []

/-- `validate_limits`, with the message it fails with. -/
def limitsError (c : DeliveryCoordinator) (capabilities : Capabilities) : Option String :=
  let limits := capabilities.limits
  let ranges := [("host_lease_seconds", c.config.hostLeaseSeconds, limits.hostLeaseSeconds),
    ("attempt_lease_seconds", c.config.attemptLeaseSeconds, limits.attemptLeaseSeconds)]
  match ranges.find? fun (_, value, range) => value < range.min || value > range.max with
  | some (name, value, range) =>
      some s!"configured {name} {value} is outside {range.min}..={range.max}"
  | none =>
      if c.config.maxAttempts > limits.maxClaimAttempts ∨
          c.config.maxEntries > limits.maxClaimEntries ∨
          c.config.maxContentBytes > limits.maxClaimContentBytes then
        some "configured claim capacity exceeds Cog capability limits"
      else none

/-- `fences`. -/
def fences (c : DeliveryCoordinator) (attempt : AttemptView) (hostFence : Nat) : Fences :=
  { instanceId := c.config.instanceId, hostFence,
    ownerGeneration := attempt.common.ownerGeneration,
    attemptFence := attempt.common.attemptFence }

end DeliveryCoordinator

/-- `validate_stable_identity`. -/
def stableIdentity (record : JournalRecord) (attempt : AttemptView) : Bool :=
  record.deliveryKey == attempt.common.deliveryKey &&
    record.payloadDigest == attempt.common.payloadDigest &&
    record.addressId == attempt.common.addressId

/-- The message of a changed identity. -/
def identityError (attempt : AttemptView) : CoordinatorError :=
  .contract s!"stable attempt {attempt.common.attemptId.value} changed immutable identity"

/-! ### The process and its surroundings -/

/-- What becomes of a write: the call returns, or the process dies with
the first `written` bytes of the line in the file. -/
inductive DiskFate where
  | returns (io : Io)
  | dies (written : Nat)
deriving Repr, DecidableEq

/-- An answer of the Cog server; `none` when the process dies before it
comes. -/
abbrev Answer (α : Type) : Type := Option (Except ClientError α)

/-- Everything the process does not decide, by the number of the call,
and for renewals also by the attempt that is asked for. -/
structure Surroundings where
  json : JournalJson
  disk : Nat → DiskFate
  now : Nat → Timestamp
  newUuid : Nat → ProtocolUuid
  /-- How many pages of open attempts are read before the process is
  taken to hang for good. -/
  pages : Nat
  probeCapabilities : Nat → Answer CapabilityProbe
  getHostLease : Nat → Answer HostLeaseResponse
  acquireHostLease : Nat → Answer HostLeaseResponse
  renewHostLease : Nat → Answer HostLeaseResponse
  releaseHostLease : Nat → Answer Unit
  getDeliveryOwner : Nat → Answer DeliveryOwner
  putDeliveryOwner : Nat → Answer DeliveryOwner
  listOpenAttempts : Nat → Answer AttemptListResponse
  getAttempt : Nat → Answer AttemptView
  claim : Nat → Answer ClaimResponse
  renewAttempt : Nat → OpaqueId → Answer AttemptView
  releaseAttempt : Nat → Answer Unit
  completeAttempt : Nat → Answer AttemptView
  failAttempt : Nat → Answer AttemptView

/-- What can be seen of the process from outside. -/
inductive CogEvent where
  /-- A journal file was opened with these records in its state. -/
  | opened (attempts : IdMap JournalRecord)
  /-- `append` returned `Ok`. -/
  | appended (record : JournalRecord)
  /-- A request left for the Cog server. -/
  | sent (request : CogRequest)
  /-- `admit_claimed_attempt` returned this action. -/
  | dispatched (action : DispatchAction)

structure CoordinatorRun where
  coordinator : DeliveryCoordinator
  tick : Nat
  events : List CogEvent

/-- Why an operation did not return a value. -/
inductive Halt where
  | failed (error : CoordinatorError)
  | killed
deriving DecidableEq

/-- An operation of the coordinator. -/
abbrev CogCall (α : Type) : Type := Effect CoordinatorRun Halt α

namespace CoordinatorRun

/-- Return an error. -/
def fail {α : Type} (error : CoordinatorError) : CogCall α := throw (.failed error)

/-- Number the next call to the surroundings. -/
def nextTick : CogCall Nat := do
  let s ← get
  modify fun s => { s with tick := s.tick + 1 }
  pure s.tick

def emit (event : CogEvent) : CogCall PUnit :=
  modify fun s => { s with events := s.events ++ [event] }

def modifyCoordinator (f : DeliveryCoordinator → DeliveryCoordinator) : CogCall PUnit :=
  modify fun s => { s with coordinator := f s.coordinator }

/-- Send a request and wait for the answer. -/
def ask {α : Type} (request : CogRequest) (answer : Nat → Answer α) :
    CogCall (Except ClientError α) := do
  let n ← nextTick
  emit (.sent request)
  match answer n with
  | none => throw .killed
  | some result => pure result

/-- The `?` on an answer. -/
def ofClient {α : Type} : Except ClientError α → CogCall α
  | .ok a => pure a
  | .error e => fail (.client e)

/-- `self.inflight.insert`. -/
def insertInflight (attemptId : OpaqueId) (attempt : InflightAttempt) : CogCall PUnit :=
  modifyCoordinator fun c => { c with inflight := c.inflight.insert attemptId attempt }

/-- `self.inflight.remove`. -/
def removeInflight (attemptId : OpaqueId) : CogCall PUnit :=
  modifyCoordinator fun c => { c with inflight := c.inflight.erase attemptId }

section operations

variable (w : Surroundings)

/-! ### The journal -/

/-- `self.journal.append(..)?`. -/
def appendEntry (entry : Timestamp → JournalEntry) : CogCall PUnit := do
  let n ← nextTick
  let s ← get
  match w.disk n with
  | .dies written =>
      let left := (s.coordinator.journal.append w.json (entry (w.now n)) (.writeFails written)).1
      modifyCoordinator fun c => { c with journal := left }
      throw .killed
  | .returns io =>
      let (journal, result) := s.coordinator.journal.append w.json (entry (w.now n)) io
      modifyCoordinator fun c => { c with journal }
      match result with
      | .ok record => emit (.appended record)
      | .error e   => fail (.journal e)

/-- `append_attempt_state`. -/
def appendAttemptState (attempt : AttemptView) (state : JournalState) : CogCall PUnit :=
  let common := attempt.common
  match common.hostFence with
  | none => fail (.contract "claimed attempt has no host fence")
  | some hostFence =>
      appendEntry w fun at_ =>
        { at_, attemptId := common.attemptId, deliveryKey := common.deliveryKey,
          payloadDigest := common.payloadDigest, addressId := common.addressId, hostFence,
          ownerGeneration := common.ownerGeneration, attemptFence := common.attemptFence, state }

/-! ### Leaving the inflight map -/

/-- Take an attempt out of the map, then put `state` into the journal. -/
def takeOut (attemptId : OpaqueId) (state : JournalState) : CogCall PUnit := do
  let s ← get
  match s.coordinator.inflight[attemptId]? with
  | none => pure ⟨⟩
  | some inflight => do
      removeInflight attemptId
      appendAttemptState w inflight.attempt state

/-- `observe_terminal`. -/
def observeTerminal (attemptId : OpaqueId) (reason : String) : CogCall PUnit :=
  takeOut w attemptId (.terminalObserved reason)

/-- `release_local`. -/
def releaseLocal (attemptId : OpaqueId) (reason : String) : CogCall PUnit :=
  takeOut w attemptId (.released reason)

/-- The journal state after a terminal mutation that the server
accepted. -/
def terminalState : AttemptStatus → Option JournalState
  | .completed => some .cogCompleted
  | .retryWait | .blocked => some .cogFailed
  | _ => none

/-- The `match result` of `flush_terminal`. -/
def finishFlush (attemptId : OpaqueId) (inflight : InflightAttempt) :
    Except ClientError AttemptView → CogCall PUnit
  | .ok response =>
      match terminalState response.status with
      | some state => do
          appendAttemptState w inflight.attempt state
          removeInflight attemptId
      | none => fail (.contract "terminal mutation returned a nonterminal attempt")
  | .error error =>
      if error.isAttemptTerminal then
        observeTerminal w attemptId s!"terminal mutation fenced: {error.display}"
      else fail (.client error)

/-- `flush_terminal`. -/
def flushTerminal (attemptId : OpaqueId) : CogCall PUnit := do
  let s ← get
  match s.coordinator.hostFence with
  | none => fail .inactive
  | some hostFence =>
      match s.coordinator.inflight[attemptId]? with
      | none => pure ⟨⟩
      | some inflight =>
          let fences := s.coordinator.fences inflight.attempt hostFence
          match inflight.phase with
          | .awaitingProvider _ => pure ⟨⟩
          | .providerSucceeded idempotencyKey provider => do
              let result ← ask (.completeAttempt attemptId { fences, idempotencyKey, provider })
                w.completeAttempt
              finishFlush w attemptId inflight result
          | .providerFailed idempotencyKey failureClass retryable message => do
              let result ← ask (.failAttempt attemptId
                { fences, idempotencyKey, failureClass, retryable, message }) w.failAttempt
              finishFlush w attemptId inflight result

/-! ### Claims -/

end operations

end CoordinatorRun

/-- What `admit_claimed_attempt` decides to do with an attempt, before
it does anything. -/
inductive Admission where
  | refused (error : CoordinatorError)
  | skipped
  | settled (phase : InflightPhase)
  | fresh (route : RuntimeRoute)

/-- The checks of `admit_claimed_attempt`. -/
def DeliveryCoordinator.admission (c : DeliveryCoordinator) (attempt : AttemptView) : Admission :=
  if attempt.status ≠ .claimed then
    .refused (.contract "claim response contained a non-claimed attempt")
  else match c.eligible[attempt.common.addressId]? with
  | none => .skipped
  | some route =>
    match c.hostFence with
    | none => .refused .inactive
    | some hostFence =>
      if attempt.common.hostId ≠ some c.config.hostId ∨
          attempt.common.hostFence ≠ some hostFence then
        .refused (.contract "claimed attempt carries a different host fence")
      else match c.journal.latest attempt.common.attemptId with
      | none => .fresh route
      | some previous =>
        if !stableIdentity previous attempt then .refused (identityError attempt)
        else if previous.state.isLocallyTerminal then .skipped
        else match InflightPhase.ofRecorded previous.state with
        | some phase => .settled phase
        | none => .fresh route

namespace CoordinatorRun

section operations

variable (w : Surroundings)

/-- `admit_claimed_attempt`. -/
def admitClaimedAttempt (attempt : AttemptView) : CogCall (Option DispatchAction) := do
  let s ← get
  let attemptId := attempt.common.attemptId
  match s.coordinator.admission attempt with
  | .refused error => fail error
  | .skipped => pure none
  | .settled phase => do
      insertInflight attemptId { attempt, phase }
      flushTerminal w attemptId
      pure none
  | .fresh route => do
      appendAttemptState w attempt .claimed
      let n ← nextTick
      let idempotencyKey := w.newUuid n
      appendAttemptState w attempt (.dispatchStarted idempotencyKey)
      insertInflight attemptId { attempt, phase := .awaitingProvider idempotencyKey }
      let request : ProviderDeliveryRequest :=
        { serverSessionId := route.serverSessionId, provider := route.provider,
          envelope := .fromAttempt attempt }
      emit (.dispatched { attemptId, request })
      pure (some { attemptId, request })

/-- The admission loop of `claim_available`: the first error ends it. -/
def admitAll : List AttemptView → CogCall (List DispatchAction)
  | [] => pure []
  | attempt :: rest => do
      let action ← admitClaimedAttempt w attempt
      let more ← admitAll rest
      pure (action.toList ++ more)

/-- The request of `claim_available`: the eligible addresses that have
nothing in flight, and the capacity that is left. -/
def claimRequest (c : DeliveryCoordinator) (hostFence : Nat) : ClaimRequest :=
  let active := c.inflight.values.map fun x => x.attempt.common.addressId
  { instanceId := c.config.instanceId, hostFence,
    availableAddresses := c.eligible.keys.filter (· ∉ active),
    maxAttempts := c.config.maxAttempts - c.inflight.size,
    maxEntries := c.config.maxEntries, maxContentBytes := c.config.maxContentBytes,
    attemptLeaseSeconds := c.config.attemptLeaseSeconds }

/-- `claim_available`. -/
def claimAvailable : CogCall ClaimBatch := do
  let s ← get
  match s.coordinator.hostFence with
  | none => fail .inactive
  | some hostFence => do
      let answer ← ask (.claim s.coordinator.config.hostId (claimRequest s.coordinator hostFence))
        w.claim
      let response ← ofClient answer
      let dispatches ← admitAll w response.attempts
      pure { dispatches, remainingDue := response.remainingDue,
             remainingIncompatible := response.remainingIncompatible }

/-! ### Results and renewals -/

/-- `record_provider_result`. -/
def recordProviderResult (attemptId : OpaqueId) (result : ProviderDeliveryResult) :
    CogCall PUnit := do
  let s ← get
  match s.coordinator.inflight[attemptId]? with
  | none => fail (.contract s!"unknown attempt {attemptId.value}")
  | some inflight =>
      match inflight.phase with
      | .awaitingProvider idempotencyKey => do
          let phase := InflightPhase.ofResult idempotencyKey result
          appendAttemptState w inflight.attempt phase.journalState
          insertInflight attemptId { inflight with phase }
          flushTerminal w attemptId
      | _ => fail (.contract "provider result was already recorded")

/-- `retry_terminal_mutations`. -/
def retryTerminalMutations : CogCall PUnit := do
  let s ← get
  let ids := (s.coordinator.inflight.toList.filter fun (_, x) => !x.phase.isAwaiting).map (·.1)
  Effect.each (flushTerminal w) ids

/-- The `match` of `renew_attempts` on the answer for one attempt. -/
def finishRenewal (attemptId : OpaqueId) (inflight : InflightAttempt) :
    Except ClientError AttemptView → CogCall PUnit
  | .ok attempt => do
      let s ← get
      match s.coordinator.inflight[attemptId]? with
      | none => pure ⟨⟩
      | some current => insertInflight attemptId { current with attempt }
  | .error error =>
      if error.isAttemptTerminal then
        observeTerminal w attemptId s!"attempt renewal fenced: {error.display}"
      else if error.apiCode = some .attemptLeaseExpired ∨
          error.apiCode = some .staleAttemptFence then
        if inflight.phase.isAwaiting then
          releaseLocal w attemptId s!"claim lost: {error.display}"
        else
          -- The provider result stays the latest journal state; a later
          -- reclaim retries the same mutation without a dispatch.
          removeInflight attemptId
      else fail (.client error)

/-- The loop body of `renew_attempts`. -/
def renewAttempt (hostFence : Nat) (attemptId : OpaqueId) : CogCall PUnit := do
  let s ← get
  match s.coordinator.inflight[attemptId]? with
  | none => pure ⟨⟩
  | some inflight => do
      let answer ← ask (.renewAttempt attemptId (s.coordinator.fences inflight.attempt hostFence)
        s.coordinator.config.attemptLeaseSeconds) (w.renewAttempt · attemptId)
      finishRenewal w attemptId inflight answer

/-- `renew_attempts`. -/
def renewAttempts : CogCall PUnit := do
  let s ← get
  match s.coordinator.hostFence with
  | none => fail .inactive
  | some hostFence => Effect.each (renewAttempt w hostFence) s.coordinator.inflight.keys

/-- `renew_host`. -/
def renewHost : CogCall PUnit := do
  let s ← get
  match s.coordinator.hostFence with
  | none => fail .inactive
  | some hostFence => do
      let config := s.coordinator.config
      let answer ← ask (.renewHostLease config.hostId config.instanceId hostFence
        config.hostLeaseSeconds) w.renewHostLease
      let response ← ofClient answer
      modifyCoordinator fun c => { c with hostFence := some response.lease.hostFence }

/-- The loop body of `shutdown`. -/
def releaseAttempt (hostFence : Nat) (attemptId : OpaqueId) : CogCall PUnit := do
  let s ← get
  match s.coordinator.inflight[attemptId]? with
  | none => pure ⟨⟩
  | some inflight => do
      let answer ← ask (.releaseAttempt attemptId
        (s.coordinator.fences inflight.attempt hostFence)
        "Yaldabaoth session server shutting down") w.releaseAttempt
      match answer with
      | .ok _ => releaseLocal w attemptId "graceful shutdown"
      | .error error =>
          if error.isAttemptTerminal then
            observeTerminal w attemptId s!"shutdown release fenced: {error.display}"
          else fail (.client error)

/-- `shutdown`. -/
def shutdown : CogCall PUnit := do
  let s ← get
  match s.coordinator.hostFence with
  | none => pure ⟨⟩
  | some hostFence => do
      retryTerminalMutations w
      let s ← get
      Effect.each (releaseAttempt w hostFence) s.coordinator.inflight.keys
      let config := s.coordinator.config
      let answer ← ask (.releaseHostLease config.hostId config.instanceId hostFence)
        w.releaseHostLease
      ofClient answer
      modifyCoordinator fun c => { c with hostFence := none }

/-! ### Activation -/

/-- `revalidate_capabilities`. -/
def revalidateCapabilities : CogCall CapabilityStatus := do
  let s ← get
  let answer ← ask .probeCapabilities w.probeCapabilities
  let probe ← ofClient answer
  match probe with
  | .unavailable => pure .unavailable
  | .available capabilities =>
      match capabilities.compatibilityError s.coordinator.configuredProviders with
      | some error => fail (.contract s!"Cog runtime capabilities are incompatible: {error}")
      | none =>
          match s.coordinator.limitsError capabilities with
          | some error => fail (.contract error)
          | none => pure .compatible

/-- The `match current` of `activate`: whether to take the lease over,
and which fence to expect. -/
def leaseTerms (config : CoordinatorConfig) (current : Option HostLeaseResponse) :
    Except CoordinatorError (Bool × Option Nat) :=
  match current with
  | none => .ok (false, none)
  | some response =>
      if response.live ∧ response.lease.instanceId = config.instanceId then
        .ok (false, some response.lease.hostFence)
      else if response.live then
        if config.takeoverLiveHost then .ok (true, some response.lease.hostFence)
        else .error (.contract
          ("another live runtime host instance owns the lease; " ++
            "takeover is not authorized"))
      else .ok (false, some response.lease.hostFence)

/-- The lease the server knows of this host. -/
def currentLease : Except ClientError HostLeaseResponse → CogCall (Option HostLeaseResponse)
  | .ok response => pure (some response)
  | .error e => if e.apiCode = some .hostNotFound then pure none else fail (.client e)

/-- Take the owner of a route's address over, when that is asked for. -/
def claimOwner (config : CoordinatorConfig) (route : RuntimeRoute) (current : DeliveryOwner) :
    CogCall (Option DeliveryOwner) :=
  if current.isHost config.hostId then pure (some current)
  else if config.reconcileOwnership then do
    let answer ← ask (.putDeliveryOwner route.addressId config.hostId current.generation)
      w.putDeliveryOwner
    match answer with
    | .ok owner => pure (some owner)
    | .error e =>
        if e.apiCode = some .retiredAddress then pure none else fail (.client e)
  else pure none

/-- The loop of `reconcile_routes`, after the sessions in `seen`. -/
def reconcileRoutesFrom (config : CoordinatorConfig) :
    List ServerSessionId → List RuntimeRoute → CogCall PUnit
  | _, [] => pure ⟨⟩
  | seen, route :: rest =>
      if route.serverSessionId ∈ seen then
        fail (.contract "multiple Cog routes map to the same Yalda provider session")
      else do
        let seen := route.serverSessionId :: seen
        let answer ← ask (.getDeliveryOwner route.addressId) w.getDeliveryOwner
        match answer with
        | .error e =>
            if e.apiCode = some .retiredAddress ∨ e.apiCode = some .addressNotFound then
              reconcileRoutesFrom config seen rest
            else fail (.client e)
        | .ok current => do
            let owner ← claimOwner w config route current
            if owner.any (·.isHost config.hostId) then
              modifyCoordinator fun c => { c with eligible := c.eligible.insert route.addressId route }
              reconcileRoutesFrom config seen rest
            else reconcileRoutesFrom config seen rest

/-- `reconcile_routes`. -/
def reconcileRoutes : CogCall PUnit := do
  modifyCoordinator fun c => { c with eligible := ∅ }
  let s ← get
  reconcileRoutesFrom w s.coordinator.config [] s.coordinator.config.routes

/-- The pages of `validate_open_attempt_history`. -/
def validateOpenAttemptsFrom : Nat → Option OpaqueId → CogCall PUnit
  | 0, _ => throw .killed
  | pages + 1, after => do
      let s ← get
      let answer ← ask (.listOpenAttempts s.coordinator.config.hostId 100 after)
        w.listOpenAttempts
      let page ← ofClient answer
      let changed := page.attempts.find? fun attempt =>
        (s.coordinator.journal.latest attempt.common.attemptId).any
          fun record => !stableIdentity record attempt
      match changed with
      | some attempt => fail (identityError attempt)
      | none =>
          match page.nextPage with
          | none => pure ⟨⟩
          | some next => validateOpenAttemptsFrom pages (some next)

/-- The state that `reconcile_journal_terminals` appends for a record
whose attempt the server reports with this status. -/
def reconciledState : JournalState → AttemptStatus → Option JournalState
  | .providerSucceeded _ _, .completed => some .cogCompleted
  | .providerFailed _ _ _ _, .retryWait
  | .providerFailed _ _ _ _, .blocked => some .cogFailed
  | _, .superseded reason =>
      some (.terminalObserved s!"Cog attempt superseded: {reason.debug}")
  | _, .completed
  | _, .retryWait
  | _, .blocked =>
      some (.terminalObserved "Cog attempt is terminal with no matching local provider result")
  | _, _ => none

/-- The loop body of `reconcile_journal_terminals`. -/
def reconcileRecord (record : JournalRecord) : CogCall PUnit := do
  let answer ← ask (.getAttempt record.attemptId) w.getAttempt
  let attempt ← ofClient answer
  if stableIdentity record attempt then
    match reconciledState record.state attempt.status with
    | none => pure ⟨⟩
    | some state =>
        appendEntry w fun at_ => { record.toJournalEntry with at_, state }
  else fail (identityError attempt)

/-- `reconcile_journal_terminals`. -/
def reconcileJournalTerminals : CogCall PUnit := do
  let s ← get
  let records := s.coordinator.journal.attempts.values.filter fun record =>
    !record.state.isLocallyTerminal
  Effect.each (reconcileRecord w) records

/-- `activate`. -/
def activate : CogCall ActivationStatus := do
  let status ← revalidateCapabilities w
  match status with
  | .unavailable => pure .inertCapabilitiesUnavailable
  | .compatible => do
      let s ← get
      let config := s.coordinator.config
      let answer ← ask (.getHostLease config.hostId) w.getHostLease
      let current ← currentLease answer
      match leaseTerms config current with
      | .error e => fail e
      | .ok (takeover, expectedHostFence) => do
          let answer ← ask (.acquireHostLease config.hostId
            { instanceId := config.instanceId, sourceKinds := [.mail, .chat],
              providerKinds := s.coordinator.configuredProviders,
              leaseSeconds := config.hostLeaseSeconds, takeover, expectedHostFence })
            w.acquireHostLease
          let lease ← ofClient answer
          modifyCoordinator fun c => { c with hostFence := some lease.lease.hostFence }
          reconcileRoutes w
          validateOpenAttemptsFrom w w.pages none
          reconcileJournalTerminals w
          let s ← get
          pure (.active lease.lease.hostFence s.coordinator.eligible.keys)

end operations

end CoordinatorRun

end Yaldabaoth
