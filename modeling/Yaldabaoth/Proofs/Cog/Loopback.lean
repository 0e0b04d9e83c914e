import Mathlib.Data.List.TakeWhile
import Yaldabaoth.Model.CogTransport

/-!
# `Yaldabaoth.Proofs.Cog.Loopback`: which base URLs stay on the machine

`validate_loopback_base_url` compares what stands in front of the first
colon, or in brackets. In an authority a colon can be part of the
userinfo, and then the host is somewhere else: `base_url_leaves_machine`
has such a base URL. `reachesLoopback_iff` says which of the accepted
ones lead to a loopback host, whatever the request.
-/

set_option autoImplicit false

namespace Yaldabaoth

open UriAuthority

/-! ### The parts of a URL -/

theorem stripPrefix_eq_some {lead text rest : List Char} :
    stripPrefix lead text = some rest ↔ text = lead ++ rest := by
  rw [stripPrefix]
  by_cases hlead : lead.isPrefixOf text = true
  · obtain ⟨behind, rfl⟩ := List.isPrefixOf_iff_prefix.1 hlead
    rw [if_pos hlead, List.drop_left, Option.some.injEq, List.append_right_inj, eq_comm]
  · rw [if_neg hlead]
    refine iff_of_false (fun h => by cases h) ?_
    rintro rfl
    exact hlead (List.isPrefixOf_iff_prefix.2 (List.prefix_append _ _))

theorem stripPrefix_eq_none {lead text : List Char} (h : ∀ rest, text ≠ lead ++ rest) :
    stripPrefix lead text = none :=
  Option.eq_none_iff_forall_ne_some.2 fun rest hrest => h rest (stripPrefix_eq_some.1 hrest)

/-- The first piece of a text. -/
theorem head_splitOn (sep : Char) (text : List Char) :
    (text.splitOn sep).head? = some (text.takeWhile fun c => !(c == sep)) := by
  induction text with
  | nil => rfl
  | cons c rest ih =>
      rw [List.splitOn_cons_eq_if_modifyHead, List.takeWhile_cons]
      cases hc : c == sep with
      | true => rfl
      | false =>
          obtain ⟨piece, pieces, hpieces⟩ := List.exists_cons_of_ne_nil (List.splitOn_ne_nil sep rest)
          rw [hpieces] at ih ⊢
          obtain rfl := Option.some.inj ih
          rfl

theorem validate_iff {rest : List Char} :
    validateLoopbackBaseUrl ("http://".toList ++ rest) = .ok () ↔
      comparedHost (rest.takeWhile fun c => !(c == '/')) ∈ loopbackHosts := by
  rw [validateLoopbackBaseUrl, stripPrefix_eq_some.2 rfl]
  dsimp only
  rw [head_splitOn]
  dsimp only
  by_cases hhost : comparedHost (rest.takeWhile fun c => !(c == '/')) ∈ loopbackHosts
  · rw [if_pos hhost]
    exact iff_of_true rfl hhost
  · rw [if_neg hhost]
    exact iff_of_false (fun h => by cases h) hhost

/-- Where the authority of a URL ends. -/
def stops (c : Char) : Bool := c == '/' || c == '?' || c == '#'

theorem ofUri_http (rest : List Char) :
    ofUri ("http://".toList ++ rest) = some (rest.takeWhile fun c => !stops c) := by
  have hsplit : splitOnce ':' ("http://".toList ++ rest)
      = some ("http".toList, ['/', '/'] ++ rest) := by
    have hnone : ':' ∉ "http".toList := by decide
    exact splitOnce_append hnone (['/', '/'] ++ rest)
  rw [ofUri, hsplit, Option.bind_some]
  exact if_pos rfl

theorem pathAndQuery_head (endpoint : CogEndpoint) :
    ∃ rest, endpoint.pathAndQuery = '/' :: rest := by
  cases endpoint with
  | listOpenAttempts hostId limit after => exact ⟨_, rfl⟩
  | _ => exact ⟨_, rfl⟩

/-- The path of a request is not in the authority. -/
theorem ofUri_url (rest : List Char) (endpoint : CogEndpoint) :
    ofUri ("http://".toList ++ rest ++ endpoint.pathAndQuery)
      = some (rest.takeWhile fun c => !stops c) := by
  obtain ⟨path, hpath⟩ := pathAndQuery_head endpoint
  rw [List.append_assoc, ofUri_http, hpath]
  congr 1
  induction rest with
  | nil => rfl
  | cons c rest ih =>
      rw [List.cons_append, List.takeWhile_cons, List.takeWhile_cons, ih]

/-! ### The host that is compared -/

theorem comparedHost_bracket {inner : List Char} (hinner : ']' ∉ inner) (rest : List Char) :
    comparedHost ('[' :: (inner ++ ']' :: rest)) = inner := by
  have hstrip : stripPrefix ['['] ('[' :: (inner ++ ']' :: rest)) = some (inner ++ ']' :: rest) :=
    stripPrefix_eq_some.2 rfl
  rw [comparedHost, hstrip, Option.bind_some, splitOnce_append hinner]
  rfl

theorem comparedHost_open {text : List Char}
    (h : (stripPrefix ['['] text).bind (splitOnce ']') = none) :
    comparedHost text = text.takeWhile fun c => !(c == ':') := by
  have hnone : ((stripPrefix ['['] text).bind fun rest => (splitOnce ']' rest).map Prod.fst) = none := by
    cases hstrip : stripPrefix ['['] text with
    | none => rfl
    | some rest =>
        rw [hstrip, Option.bind_some] at h
        rw [Option.bind_some, h]
        rfl
  rw [comparedHost, hnone, head_splitOn]
  rfl

/-- Nothing, or a colon and more. -/
def Tail (text : List Char) : Prop := text = [] ∨ ∃ rest, text = ':' :: rest

theorem takeWhile_name {name tail : List Char} (hname : ':' ∉ name) (htail : Tail tail) :
    ((name ++ tail).takeWhile fun c => !(c == ':')) = name ∧
      ((name ++ tail).dropWhile fun c => !(c == ':')) = tail := by
  have hall : ∀ c ∈ name, (!(c == ':')) = true := by
    intro c hc
    have hne : c ≠ ':' := fun heq => hname (heq ▸ hc)
    rw [beq_eq_false_iff_ne.2 hne]
    rfl
  rw [List.takeWhile_append_of_pos hall, List.dropWhile_append_of_pos hall]
  rcases htail with rfl | ⟨rest, rfl⟩
  · exact ⟨List.append_nil name, rfl⟩
  · exact ⟨List.append_nil name, rfl⟩

theorem exists_name (text : List Char) :
    ∃ name tail, text = name ++ tail ∧ ':' ∉ name ∧ Tail tail := by
  cases hsplit : splitOnce ':' text with
  | none => exact ⟨text, [], (List.append_nil _).symm, splitOnce_eq_none.1 hsplit, .inl rfl⟩
  | some parts =>
      obtain ⟨rfl, hnone⟩ := splitOnce_eq_some hsplit
      exact ⟨parts.1, ':' :: parts.2, rfl, hnone, .inr ⟨_, rfl⟩⟩

theorem stripPrefix_name {name tail : List Char} (hname : name ∈ loopbackHosts) :
    stripPrefix ['['] (name ++ tail) = none := by
  have hall : ∀ name ∈ loopbackHosts, ∀ rest, name.head? ≠ (('[' : Char) :: rest).head? ∧ name ≠ [] := by
    intro name hname rest
    rw [List.head?_cons]
    revert name hname
    decide
  refine stripPrefix_eq_none fun rest hrest => ?_
  obtain ⟨hhead, hne⟩ := hall name hname rest
  obtain ⟨c, name, rfl⟩ := List.exists_cons_of_ne_nil hne
  obtain ⟨rfl, -⟩ := List.cons_eq_cons.1 hrest
  exact hhead rfl

theorem comparedHost_name {name tail : List Char} (hname : name ∈ loopbackHosts)
    (hcolon : ':' ∉ name) (htail : Tail tail) : comparedHost (name ++ tail) = name := by
  rw [comparedHost_open (by rw [stripPrefix_name hname]; rfl), (takeWhile_name hcolon htail).1]

/-- What an accepted host stands in: brackets, or in front of a colon. -/
theorem comparedHost_cases {text : List Char} (h : comparedHost text ∈ loopbackHosts) :
    (∃ inner rest, text = '[' :: (inner ++ ']' :: rest) ∧ inner ∈ loopbackHosts) ∨
      ∃ name tail, text = name ++ tail ∧ name ∈ loopbackHosts ∧ ':' ∉ name ∧ Tail tail := by
  cases hsplit : (stripPrefix ['['] text).bind (splitOnce ']') with
  | none =>
      obtain ⟨name, tail, rfl, hcolon, htail⟩ := exists_name text
      rw [comparedHost_open hsplit, (takeWhile_name hcolon htail).1] at h
      exact .inr ⟨name, tail, rfl, h, hcolon, htail⟩
  | some parts =>
      obtain ⟨rest, hstrip, hparts⟩ := Option.bind_eq_some_iff.1 hsplit
      obtain ⟨rfl, hnone⟩ := splitOnce_eq_some hparts
      obtain rfl := stripPrefix_eq_some.1 hstrip
      have hinner : comparedHost (['['] ++ (parts.1 ++ ']' :: parts.2)) = parts.1 :=
        comparedHost_bracket hnone parts.2
      rw [hinner] at h
      exact .inl ⟨parts.1, parts.2, rfl, h⟩

theorem not_mem_loopbackHost {host : List Char} (h : host ∈ loopbackHosts) :
    ']' ∉ host ∧ '@' ∉ host ∧ ∀ c ∈ host, (!stops c) = true := by
  have hall : ∀ host ∈ loopbackHosts, ']' ∉ host ∧ '@' ∉ host ∧ ∀ c ∈ host, (!stops c) = true := by
    simp [loopbackHosts, stops]
  exact hall host h

/-- A query or a fragment does not change the host that is compared. -/
theorem comparedHost_takeWhile {text : List Char} (h : comparedHost text ∈ loopbackHosts) :
    comparedHost (text.takeWhile fun c => !stops c) ∈ loopbackHosts := by
  rcases comparedHost_cases h with ⟨inner, rest, rfl, hinner⟩ | ⟨name, tail, rfl, hname, hcolon, htail⟩
  · obtain ⟨hclose, -, hstops⟩ := not_mem_loopbackHost hinner
    have htake : ('[' :: (inner ++ ']' :: rest)).takeWhile (fun c => !stops c)
        = '[' :: (inner ++ ']' :: rest.takeWhile fun c => !stops c) := by
      show '[' :: ((inner ++ ']' :: rest).takeWhile fun c => !stops c) = _
      rw [List.takeWhile_append_of_pos hstops]
      rfl
    rw [htake, comparedHost_bracket hclose]
    exact hinner
  · obtain ⟨-, -, hstops⟩ := not_mem_loopbackHost hname
    have htail' : Tail (tail.takeWhile fun c => !stops c) := by
      rcases htail with rfl | ⟨rest, rfl⟩
      · exact .inl rfl
      · exact .inr ⟨_, rfl⟩
    rw [List.takeWhile_append_of_pos hstops, comparedHost_name hname hcolon htail']
    exact hname

/-! ### Plain authorities -/

theorem readPort_iff {text : List Char} :
    (text = [] ∨ text.head? = some ':' ∧ isPort text.tail = true) ↔
      ∃ port, text = portText port ∧ ∀ digits ∈ port, isPort digits = true := by
  constructor
  · rintro (rfl | ⟨hhead, hport⟩)
    · exact ⟨none, rfl, fun _ h => by cases h⟩
    · cases text with
      | nil => cases hhead
      | cons c rest =>
          obtain rfl := Option.some.inj hhead
          refine ⟨some rest, rfl, fun digits hdigits => ?_⟩
          obtain rfl := Option.some.inj hdigits
          exact hport
  · rintro ⟨port, rfl, hport⟩
    cases port with
    | none => exact .inl rfl
    | some digits => exact .inr ⟨rfl, hport digits rfl⟩

theorem tail_portText (port : Option (List Char)) : Tail (portText port) := by
  cases port with
  | none => exact .inl rfl
  | some digits => exact .inr ⟨digits, rfl⟩

theorem unread_bracket {inner : List Char} (hinner : ']' ∉ inner) (rest : List Char) :
    unread ('[' :: (inner ++ ']' :: rest)) = rest := by
  have hstrip : stripPrefix ['['] ('[' :: (inner ++ ']' :: rest)) = some (inner ++ ']' :: rest) :=
    stripPrefix_eq_some.2 rfl
  rw [unread, hstrip, Option.bind_some, splitOnce_append hinner]
  rfl

theorem unread_name {name tail : List Char} (hname : name ∈ loopbackHosts) (hcolon : ':' ∉ name)
    (htail : Tail tail) : unread (name ++ tail) = tail := by
  have hdrop := (takeWhile_name hcolon htail).2
  rw [unread, stripPrefix_name hname]
  show ((name ++ tail).dropWhile fun c => decide (c ≠ ':')) = tail
  rw [← hdrop]
  congr 1
  · funext c
    by_cases hc : c = ':'
    · rw [hc]
      rfl
    · rw [beq_eq_false_iff_ne.2 hc, decide_eq_true hc]
      rfl
  · rw [hdrop]

/-- An accepted plain authority is a host of the machine with a port. -/
theorem plain_iff {authority : List Char} :
    (comparedHost authority ∈ loopbackHosts ∧ Plain authority) ↔
      ∃ host ∈ machineHosts, ∃ port, authority = host ++ portText port ∧
        ∀ digits ∈ port, isPort digits = true := by
  constructor
  · rintro ⟨haccepted, hport, hbracket⟩
    rw [readPort_iff] at hport
    obtain ⟨port, hunread, hdigits⟩ := hport
    rcases comparedHost_cases haccepted with
      ⟨inner, rest, rfl, hinner⟩ | ⟨name, tail, rfl, hname, hcolon, htail⟩
    · obtain ⟨hclose, -, -⟩ := not_mem_loopbackHost hinner
      have haddress := hbracket rfl
      rw [comparedHost_bracket hclose] at haddress
      rw [unread_bracket hclose] at hunread
      refine ⟨"[::1]".toList, by decide, port, ?_, hdigits⟩
      rw [haddress, hunread]
      rfl
    · rw [unread_name hname hcolon htail] at hunread
      refine ⟨name, ?_, port, by rw [hunread], hdigits⟩
      have hall : ∀ name ∈ loopbackHosts, ':' ∉ name → name ∈ machineHosts := by decide
      exact hall name hname hcolon
  · rintro ⟨host, hhost, port, rfl, hdigits⟩
    have hcases : host = "[::1]".toList ∨
        host ∈ loopbackHosts ∧ ':' ∉ host ∧ host.head? ≠ some '[' ∧ host ≠ [] := by
      revert host
      decide
    rcases hcases with rfl | ⟨hname, hcolon, hhead, hne⟩
    · have hclose : ']' ∉ "::1".toList := by decide
      have htext : "[::1]".toList ++ portText port
          = '[' :: ("::1".toList ++ ']' :: portText port) := rfl
      rw [htext, Plain, comparedHost_bracket hclose, unread_bracket hclose, readPort_iff]
      exact ⟨by decide, ⟨port, rfl, hdigits⟩, fun _ => rfl⟩
    · have htail := tail_portText port
      rw [Plain, comparedHost_name hname hcolon htail, unread_name hname hcolon htail, readPort_iff]
      refine ⟨hname, ⟨port, rfl, hdigits⟩, fun hbracket => ?_⟩
      obtain ⟨c, rest, rfl⟩ := List.exists_cons_of_ne_nil hne
      exact absurd hbracket hhead

/-! ### Base URLs -/

theorem new_eq_ok {baseUrl : List Char} {t : UreqTransport} (h : UreqTransport.new baseUrl = .ok t) :
    t.baseUrl = trimEndSlashes baseUrl ∧ validateLoopbackBaseUrl t.baseUrl = .ok () := by
  rw [UreqTransport.new] at h
  cases hvalid : validateLoopbackBaseUrl (trimEndSlashes baseUrl) with
  | error e =>
      rw [hvalid] at h
      cases h
  | ok u =>
      rw [hvalid] at h
      cases h
      exact ⟨rfl, hvalid⟩

/-- An accepted base URL and what is behind its scheme. -/
theorem exists_rest {value : List Char} (h : validateLoopbackBaseUrl value = .ok ()) :
    ∃ rest, value = "http://".toList ++ rest ∧
      comparedHost (rest.takeWhile fun c => !(c == '/')) ∈ loopbackHosts := by
  cases hstrip : stripPrefix "http://".toList value with
  | none =>
      rw [validateLoopbackBaseUrl, hstrip] at h
      cases h
  | some rest =>
      obtain rfl := stripPrefix_eq_some.1 hstrip
      exact ⟨rest, rfl, validate_iff.1 h⟩

theorem takeWhile_takeWhile (text : List Char) :
    (text.takeWhile fun c => !(c == '/')).takeWhile (fun c => !stops c)
      = text.takeWhile fun c => !stops c := by
  induction text with
  | nil => rfl
  | cons c rest ih =>
      rw [List.takeWhile_cons, List.takeWhile_cons]
      cases hc : c == '/' with
      | true =>
          have hstop : stops c = true := by rw [stops, hc]; rfl
          rw [hstop]
          rfl
      | false =>
          show (c :: rest.takeWhile fun c => !(c == '/')).takeWhile (fun c => !stops c) = _
          rw [List.takeWhile_cons, ih]

/-- Text without a slash, as an authority of its own. -/
theorem validate_authority {text : List Char} (h : ∀ c ∈ text, (!stops c) = true) :
    validateLoopbackBaseUrl ("http://".toList ++ text) = .ok () ↔
      comparedHost text ∈ loopbackHosts := by
  have hall : text.takeWhile (fun c => !(c == '/')) = text := by
    refine List.takeWhile_eq_self_iff.2 fun c hc => ?_
    have hstops := h c hc
    rw [stops] at hstops
    cases hslash : c == '/' with
    | true =>
        rw [hslash] at hstops
        cases hstops
    | false => rfl
  rw [validate_iff, hall]

/-- Every request under an accepted base URL goes to a host of the
machine exactly when the base URL is confined. -/
theorem reachesLoopback_iff (baseUrl : List Char) (t : UreqTransport)
    (h : UreqTransport.new baseUrl = .ok t) :
    (∀ endpoint, ReachesLoopback (t.url endpoint)) ↔ Confined t.baseUrl := by
  obtain ⟨rest, hbase, haccepted⟩ := exists_rest (new_eq_ok h).2
  have hurl (endpoint : CogEndpoint) :
      ofUri (t.url endpoint) = some (rest.takeWhile fun c => !stops c) := by
    rw [UreqTransport.url, hbase]
    exact ofUri_url rest endpoint
  have hown : ofUri t.baseUrl = some (rest.takeWhile fun c => !stops c) := by
    rw [hbase]
    exact ofUri_http rest
  have hstops : ∀ c ∈ rest.takeWhile (fun c => !stops c), (!stops c) = true :=
    fun c hc => List.all_eq_true.1 List.all_takeWhile c hc
  -- The validator's comparison holds of the authority of the grammar too.
  have hcompared : comparedHost (rest.takeWhile fun c => !stops c) ∈ loopbackHosts := by
    rw [← takeWhile_takeWhile]
    exact comparedHost_takeWhile haccepted
  generalize rest.takeWhile (fun c => !stops c) = authority at hurl hown hstops hcompared
  constructor
  · intro hall
    obtain ⟨a, hread, hhost⟩ := hall .probeCapabilities
    rw [hurl, Option.bind_some] at hread
    obtain ⟨hvalid, rfl⟩ := read_eq_some_iff.1 hread
    refine ⟨a.text, hown, ?_⟩
    have hplain := plain_iff.2 ⟨a.host, hhost, a.port, rfl, hvalid.port⟩
    cases hinfo : a.userinfo with
    | none =>
        have htext : a.text = a.host ++ portText a.port := by
          rw [text, hinfo]
          rfl
        have hnone : splitOnce '@' (a.host ++ portText a.port) = none := by
          rw [splitOnce_eq_none, List.mem_append, not_or]
          exact ⟨at_not_mem_host hvalid, not_mem_portText hvalid.port⟩
        rw [htext, hnone]
        exact hplain.2
    | some userinfo =>
        have hlegal := hvalid.userinfo userinfo hinfo
        have htext : a.text = userinfo ++ '@' :: (a.host ++ portText a.port) := by
          rw [text, hinfo, userinfoText, List.append_assoc, List.singleton_append]
        rw [htext] at hstops
        rw [htext, splitOnce_append (at_not_mem_userinfo hlegal)]
        refine ⟨hlegal, ?_, hplain.2⟩
        rw [validate_authority fun c hc =>
          hstops c (List.mem_append_right _ (List.mem_cons_of_mem _ hc))]
        exact hplain.1
  · rintro ⟨authority', hauthority, hconfined⟩ endpoint
    obtain rfl := Option.some.inj (hown.symm.trans hauthority)
    have hread (a : UriAuthority) (hvalid : a.Valid) (htext : a.text = authority)
        (hhost : a.host ∈ machineHosts) : ReachesLoopback (t.url endpoint) := by
      refine ⟨a, ?_, hhost⟩
      rw [hurl, Option.bind_some]
      exact read_eq_some_iff.2 ⟨hvalid, htext⟩
    have hvalidHost : ∀ host ∈ machineHosts, isRegName host = true ∨ isIpLiteral host = true := by
      decide
    cases hsplit : splitOnce '@' authority with
    | none =>
        rw [hsplit] at hconfined
        obtain ⟨host, hhost, port, rfl, hport⟩ := plain_iff.1 ⟨hcompared, hconfined⟩
        exact hread ⟨none, host, port⟩ ⟨fun _ h => (by cases h), hvalidHost host hhost, hport⟩ rfl hhost
    | some parts =>
        obtain ⟨userinfo, behind⟩ := parts
        rw [hsplit] at hconfined
        obtain ⟨hlegal, hbehind, hplain⟩ := hconfined
        obtain ⟨rfl, -⟩ := splitOnce_eq_some hsplit
        rw [validate_authority fun c hc =>
          hstops c (List.mem_append_right _ (List.mem_cons_of_mem _ hc))] at hbehind
        obtain ⟨host, hhost, port, rfl, hport⟩ := plain_iff.1 ⟨hbehind, hplain⟩
        refine hread ⟨some userinfo, host, port⟩ ⟨fun info hinfo => ?_, hvalidHost host hhost, hport⟩
          ?_ hhost
        · obtain rfl := Option.some.inj hinfo
          exact hlegal
        · show userinfo ++ ['@'] ++ (host ++ portText port) = _
          rw [List.append_assoc, List.singleton_append]

theorem reachesLoopback_iff_sample :
    (∀ endpoint, ReachesLoopback
        ((⟨"http://[::1]:8787".toList⟩ : UreqTransport).url endpoint)) ∧
      UreqTransport.new "http://[::1]:8787//".toList = .ok ⟨"http://[::1]:8787".toList⟩ := by
  have hnew : UreqTransport.new "http://[::1]:8787//".toList = .ok ⟨"http://[::1]:8787".toList⟩ := by
    decide
  refine ⟨(reachesLoopback_iff _ _ hnew).2 ⟨"[::1]:8787".toList, by decide, ?_⟩, hnew⟩
  have hsplit : splitOnce '@' "[::1]:8787".toList = none := by decide
  rw [hsplit]
  refine ⟨.inr ⟨by decide, by decide⟩, fun _ => by decide⟩

/-- The name of the machine as a user, and the host behind it. -/
theorem base_url_leaves_machine :
    ¬ ∀ (baseUrl : List Char) (t : UreqTransport), UreqTransport.new baseUrl = .ok t →
      ∀ endpoint, ReachesLoopback (t.url endpoint) := by
  intro h
  have hnew : UreqTransport.new "http://localhost:x@192.0.2.1".toList
      = .ok ⟨"http://localhost:x@192.0.2.1".toList⟩ := by decide
  obtain ⟨a, hread, hhost⟩ := h _ _ hnew .probeCapabilities
  have helsewhere : (ofUri ((⟨"http://localhost:x@192.0.2.1".toList⟩ : UreqTransport).url
      .probeCapabilities)).bind read
        = some ⟨some "localhost:x".toList, "192.0.2.1".toList, none⟩ := by decide
  obtain rfl := Option.some.inj (helsewhere.symm.trans hread)
  exact absurd hhost (by decide)

end Yaldabaoth
