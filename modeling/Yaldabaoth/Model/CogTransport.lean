import Yaldabaoth.Lib.UriAuthority
import Yaldabaoth.Model.Provider

/-!
# `Yaldabaoth.Model.CogTransport`: where the requests to Cog go

The part of `cog_runtime/transport.rs` that makes the URL of a request:
the base URL that `UreqTransport::new` accepts, and the paths of the
requests of `CogClient`. The URL is read by the HTTP client, which is not
part of the repository; `UriAuthority` has the grammar for that.
-/

set_option autoImplicit false

namespace Yaldabaoth

structure TransportError where
  message : String
deriving Repr, DecidableEq

/-- `strip_prefix`. -/
def stripPrefix (lead text : List Char) : Option (List Char) :=
  if lead.isPrefixOf text then some (text.drop lead.length) else none

/-- The host that `validate_loopback_base_url` compares. -/
def comparedHost (hostPort : List Char) : List Char :=
  ((stripPrefix ['['] hostPort).bind fun rest => (splitOnce ']' rest).map Prod.fst).getD
    ((hostPort.splitOn ':').head?.getD hostPort)

/-- The hosts that it accepts. -/
def loopbackHosts : List (List Char) := ["127.0.0.1".toList, "localhost".toList, "::1".toList]

def validateLoopbackBaseUrl (value : List Char) : Except TransportError Unit :=
  match stripPrefix "http://".toList value with
  | none => .error ⟨"Cog URL must use loopback http://"⟩
  | some authority =>
      match (authority.splitOn '/').head? with
      | none => .error ⟨"Cog URL has no authority"⟩
      | some hostPort =>
          if comparedHost hostPort ∈ loopbackHosts then .ok ()
          else .error ⟨"Cog runtime transport is installation-local and must use a loopback host"⟩

structure UreqTransport where
  baseUrl : List Char
deriving Repr, DecidableEq

/-- `trim_end_matches('/')`. -/
def trimEndSlashes (text : List Char) : List Char := (text.reverse.dropWhile (· = '/')).reverse

def UreqTransport.new (baseUrl : List Char) : Except TransportError UreqTransport :=
  (validateLoopbackBaseUrl (trimEndSlashes baseUrl)).map fun _ => ⟨trimEndSlashes baseUrl⟩

/-! ### Paths -/

def hexDigit (n : UInt8) : Char := (Nat.digitChar n.toNat).toUpper

def percentEncode (bytes : List UInt8) : List Char :=
  bytes.flatMap fun (byte : UInt8) =>
    let c := Char.ofNat byte.toNat
    if byte < 128 && (c.isAlphanum || c == '-' || c == '.' || c == '_' || c == '~') then [c]
    else ['%', hexDigit (byte >>> 4), hexDigit (byte &&& 0xf)]

/-- `encode_path` and `encode_query`. -/
def encodeText (text : String) : List Char :=
  percentEncode (text.toList.flatMap String.utf8EncodeChar)

/-- The requests of `CogClient`, without their bodies. -/
inductive CogEndpoint where
  | probeCapabilities
  | getHostLease (hostId : OpaqueId)
  | acquireHostLease (hostId : OpaqueId)
  | renewHostLease (hostId : OpaqueId)
  | releaseHostLease (hostId : OpaqueId)
  | getDeliveryOwner (addressId : OpaqueId)
  | putDeliveryOwner (addressId : OpaqueId)
  | listOpenAttempts (hostId : OpaqueId) (limit : UInt64) (after : Option OpaqueId)
  | getAttempt (attemptId : OpaqueId)
  | claim (hostId : OpaqueId)
  | renewAttempt (attemptId : OpaqueId)
  | releaseAttempt (attemptId : OpaqueId)
  | completeAttempt (attemptId : OpaqueId)
  | failAttempt (attemptId : OpaqueId)
  | openWakes (hostId : OpaqueId)
deriving DecidableEq

namespace CogEndpoint

def runtimeHost (hostId : OpaqueId) (rest : String) : List Char :=
  "/v1/runtime-hosts/".toList ++ encodeText hostId.value ++ rest.toList

def deliveryAttempt (attemptId : OpaqueId) (rest : String) : List Char :=
  "/v1/delivery-attempts/".toList ++ encodeText attemptId.value ++ rest.toList

def deliveryOwner (addressId : OpaqueId) : List Char :=
  "/v1/addresses/".toList ++ encodeText addressId.value ++ "/delivery-owner".toList

def pathAndQuery : CogEndpoint → List Char
  | probeCapabilities => "/v1/runtime-delivery/capabilities".toList
  | getHostLease hostId => runtimeHost hostId "/lease"
  | acquireHostLease hostId => runtimeHost hostId "/lease"
  | renewHostLease hostId => runtimeHost hostId "/lease/renew"
  | releaseHostLease hostId => runtimeHost hostId "/lease"
  | getDeliveryOwner addressId => deliveryOwner addressId
  | putDeliveryOwner addressId => deliveryOwner addressId
  | listOpenAttempts hostId limit after =>
      runtimeHost hostId "/delivery-attempts?state=open&limit=" ++ Nat.toDigits 10 limit.toNat ++
        (match after with
        | none => []
        | some cursor => "&after=".toList ++ encodeText cursor.value)
  | getAttempt attemptId => deliveryAttempt attemptId ""
  | claim hostId => runtimeHost hostId "/delivery-attempts:claim"
  | renewAttempt attemptId => deliveryAttempt attemptId "/renew"
  | releaseAttempt attemptId => deliveryAttempt attemptId "/release"
  | completeAttempt attemptId => deliveryAttempt attemptId "/complete"
  | failAttempt attemptId => deliveryAttempt attemptId "/fail"
  | openWakes hostId => runtimeHost hostId "/delivery-wakes?follow=true"

end CogEndpoint

/-- The URL that `send` gives to the HTTP client. -/
def UreqTransport.url (t : UreqTransport) (endpoint : CogEndpoint) : List Char :=
  t.baseUrl ++ endpoint.pathAndQuery

/-! ### Where they go -/

/-- The hosts that are on the machine, as the URI grammar has them. -/
def machineHosts : List (List Char) := ["127.0.0.1".toList, "localhost".toList, "[::1]".toList]

/-- The URI grammar finds one of them in a URL. -/
def ReachesLoopback (url : List Char) : Prop :=
  ∃ authority, (UriAuthority.ofUri url).bind UriAuthority.read = some authority ∧
    authority.host ∈ machineHosts

/-- What stands in an authority behind the host that is compared. -/
def unread (authority : List Char) : List Char :=
  ((stripPrefix ['['] authority).bind fun rest => (splitOnce ']' rest).map Prod.snd).getD
    (authority.dropWhile (· ≠ ':'))

/-- Nothing but a port is behind the host that is compared, and what is
compared in brackets is an address. -/
def Plain (authority : List Char) : Prop :=
  (unread authority = [] ∨
      (unread authority).head? = some ':' ∧ UriAuthority.isPort (unread authority).tail = true) ∧
    (authority.head? = some '[' → comparedHost authority = "::1".toList)

/-- The authority of a base URL is plain, or it has a userinfo and what
is behind that would be accepted and is plain. -/
def Confined (baseUrl : List Char) : Prop :=
  ∃ authority, UriAuthority.ofUri baseUrl = some authority ∧
    match splitOnce '@' authority with
    | none => Plain authority
    | some (userinfo, behind) =>
        UriAuthority.isUserinfo userinfo = true ∧
          validateLoopbackBaseUrl ("http://".toList ++ behind) = .ok () ∧ Plain behind

end Yaldabaoth
