import Mathlib.Data.List.Basic

/-!
# `Yaldabaoth.Lib.UriAuthority`: the authority of a URI

The grammar of RFC 3986, section 3.2: an authority is an optional
userinfo with an `@` behind it, a host, and an optional port with a `:`
in front of it. `Valid` are the rules for the three, `text` puts them
together, `read` takes them apart again. `read_eq_some_iff` says that the
grammar is unambiguous and that `read` is its reader.

What stands in the brackets of an IP literal is any sequence of the
characters that an address can have.
-/

set_option autoImplicit false

/-- The parts of a text around the first `sep` in it. -/
def splitOnce (sep : Char) : List Char → Option (List Char × List Char)
  | [] => none
  | c :: rest =>
      if c = sep then some ([], rest)
      else (splitOnce sep rest).map fun parts => (c :: parts.1, parts.2)

theorem splitOnce_eq_none {sep : Char} {text : List Char} :
    splitOnce sep text = none ↔ sep ∉ text := by
  induction text with
  | nil => exact iff_of_true rfl List.not_mem_nil
  | cons c rest ih =>
      rw [splitOnce, List.mem_cons, not_or]
      by_cases hc : c = sep
      · rw [if_pos hc]
        exact iff_of_false (Option.some_ne_none _) fun h => h.1 hc.symm
      · rw [if_neg hc, Option.map_eq_none_iff, ih]
        exact ⟨fun h => ⟨fun heq => hc heq.symm, h⟩, And.right⟩

theorem splitOnce_append {sep : Char} {before : List Char} (hbefore : sep ∉ before)
    (after : List Char) : splitOnce sep (before ++ sep :: after) = some (before, after) := by
  induction before with
  | nil => rw [List.nil_append, splitOnce, if_pos rfl]
  | cons c rest ih =>
      obtain ⟨hc, hrest⟩ := not_or.1 (fun h => hbefore (List.mem_cons.2 h))
      rw [List.cons_append, splitOnce, if_neg (Ne.symm hc), ih hrest]
      rfl

theorem splitOnce_eq_some {sep : Char} {text before after : List Char}
    (h : splitOnce sep text = some (before, after)) :
    text = before ++ sep :: after ∧ sep ∉ before := by
  induction text generalizing before with
  | nil => cases h
  | cons c rest ih =>
      rw [splitOnce] at h
      by_cases hc : c = sep
      · rw [if_pos hc] at h
        obtain ⟨rfl, rfl⟩ := Prod.mk.inj (Option.some.inj h)
        exact ⟨by rw [hc]; rfl, List.not_mem_nil⟩
      · rw [if_neg hc] at h
        obtain ⟨⟨first, last⟩, hparts, heq⟩ := Option.map_eq_some_iff.1 h
        obtain ⟨rfl, rfl⟩ := Prod.mk.inj heq
        obtain ⟨rfl, hnone⟩ := ih hparts
        refine ⟨rfl, fun hmem => ?_⟩
        rcases List.mem_cons.1 hmem with heq | hmem
        · exact hc heq.symm
        · exact hnone hmem

structure UriAuthority where
  userinfo : Option (List Char)
  host : List Char
  port : Option (List Char)
deriving Repr, DecidableEq

namespace UriAuthority

/-! ### The grammar -/

def isUnreserved (c : Char) : Bool :=
  c.isAlphanum || c == '-' || c == '.' || c == '_' || c == '~'

def isSubDelim (c : Char) : Bool := "!$&'()*+,;=".toList.contains c

def isHexDigit (c : Char) : Bool :=
  c.isDigit || (decide ('a' ≤ c) && decide (c ≤ 'f')) || (decide ('A' ≤ c) && decide (c ≤ 'F'))

/-- Characters that are allowed and percent-encoded bytes. `owed` hex
digits are due first. -/
def encoded (allowed : Char → Bool) : Nat → List Char → Bool
  | 0, [] => true
  | _ + 1, [] => false
  | 0, c :: rest => if c = '%' then encoded allowed 2 rest else allowed c && encoded allowed 0 rest
  | owed + 1, c :: rest => isHexDigit c && encoded allowed owed rest

def isUserinfo (text : List Char) : Bool :=
  encoded (fun c => isUnreserved c || isSubDelim c || c == ':') 0 text

def isRegName (text : List Char) : Bool := encoded (fun c => isUnreserved c || isSubDelim c) 0 text

def isIpLiteral (text : List Char) : Bool :=
  match text with
  | '[' :: rest =>
      match splitOnce ']' rest with
      | some (address, []) => address.all fun c => isUnreserved c || isSubDelim c || c == ':'
      | _ => false
  | _ => false

def isPort (text : List Char) : Bool := text.all Char.isDigit

structure Valid (a : UriAuthority) : Prop where
  userinfo : ∀ text ∈ a.userinfo, isUserinfo text = true
  host : isRegName a.host = true ∨ isIpLiteral a.host = true
  port : ∀ text ∈ a.port, isPort text = true

def userinfoText : Option (List Char) → List Char
  | none => []
  | some userinfo => userinfo ++ ['@']

def portText : Option (List Char) → List Char
  | none => []
  | some port => ':' :: port

/-- What is put together is an authority. -/
def text (a : UriAuthority) : List Char := userinfoText a.userinfo ++ (a.host ++ portText a.port)

/-! ### The reader -/

/-- The host that a text begins with, and what is behind it. -/
def readHost (text : List Char) : Option (List Char × List Char) :=
  if text.head? = some '[' then
    (splitOnce ']' text).map fun parts => (parts.1 ++ [']'], parts.2)
  else some (text.takeWhile (· ≠ ':'), text.dropWhile (· ≠ ':'))

/-- The port behind a host. -/
def readPort (text : List Char) : Option (Option (List Char)) :=
  if text.isEmpty then some none
  else if text.head? = some ':' then some (some text.tail)
  else none

instance (a : UriAuthority) : Decidable a.Valid :=
  decidable_of_iff ((∀ text ∈ a.userinfo, isUserinfo text = true) ∧
    (isRegName a.host = true ∨ isIpLiteral a.host = true) ∧ ∀ text ∈ a.port, isPort text = true)
    ⟨fun h => ⟨h.1, h.2.1, h.2.2⟩, fun h => ⟨h.userinfo, h.host, h.port⟩⟩

/-- The userinfo of a text, and what is behind it. -/
def readUserinfo (text : List Char) : Option (List Char) × List Char :=
  ((splitOnce '@' text).map Prod.fst, ((splitOnce '@' text).map Prod.snd).getD text)

def read (text : List Char) : Option UriAuthority :=
  (readHost (readUserinfo text).2).bind fun parts => (readPort parts.2).bind fun port =>
    let authority : UriAuthority := ⟨(readUserinfo text).1, parts.1, port⟩
    if authority.Valid then some authority else none

/-- The authority of a URI: between the `//` behind the scheme and the
path, the query or the fragment. -/
def ofUri (uri : List Char) : Option (List Char) :=
  (splitOnce ':' uri).bind fun parts =>
    if parts.2.take 2 = ['/', '/'] then
      some ((parts.2.drop 2).takeWhile fun c => !(c == '/' || c == '?' || c == '#'))
    else none

/-! ### Which characters are where -/

theorem mem_encoded {allowed : Char → Bool} {owed : Nat} {text : List Char}
    (h : encoded allowed owed text = true) {c : Char} (hc : c ∈ text) :
    c = '%' ∨ allowed c = true ∨ isHexDigit c = true := by
  induction text generalizing owed with
  | nil => cases hc
  | cons d rest ih =>
      cases owed with
      | zero =>
          rw [encoded] at h
          by_cases hd : d = '%'
          · rw [if_pos hd] at h
            rcases List.mem_cons.1 hc with rfl | hc
            · exact .inl hd
            · exact ih h hc
          · rw [if_neg hd] at h
            obtain ⟨hallowed, hrest⟩ := Bool.and_eq_true_iff.1 h
            rcases List.mem_cons.1 hc with rfl | hc
            · exact .inr (.inl hallowed)
            · exact ih hrest hc
      | succ owed =>
          obtain ⟨hhex, hrest⟩ := Bool.and_eq_true_iff.1 h
          rcases List.mem_cons.1 hc with rfl | hc
          · exact .inr (.inr hhex)
          · exact ih hrest hc

theorem at_not_mem_userinfo {text : List Char} (h : isUserinfo text = true) : '@' ∉ text := by
  intro hmem
  exact absurd (mem_encoded h hmem) (by decide)

theorem not_mem_regName {text : List Char} (h : isRegName text = true) :
    '@' ∉ text ∧ ':' ∉ text ∧ '[' ∉ text := by
  refine ⟨fun hmem => ?_, fun hmem => ?_, fun hmem => ?_⟩
  · exact absurd (mem_encoded h hmem) (by decide)
  · exact absurd (mem_encoded h hmem) (by decide)
  · exact absurd (mem_encoded h hmem) (by decide)

theorem at_not_mem_port {text : List Char} (h : isPort text = true) : '@' ∉ text := by
  intro hmem
  exact absurd (List.all_eq_true.1 h _ hmem) (by decide)

/-- An IP literal is an address in brackets. -/
theorem exists_address {text : List Char} (h : isIpLiteral text = true) :
    ∃ address, text = '[' :: (address ++ [']']) ∧ ']' ∉ address ∧ '@' ∉ address := by
  unfold isIpLiteral at h
  split at h
  · rename_i rest
    split at h
    · rename_i address hsplit
      obtain ⟨rfl, hnone⟩ := splitOnce_eq_some hsplit
      refine ⟨address, rfl, hnone, fun hmem => ?_⟩
      exact absurd (List.all_eq_true.1 h _ hmem) (by decide)
    · cases h
  · cases h

theorem at_not_mem_host {a : UriAuthority} (h : a.Valid) : '@' ∉ a.host := by
  rcases h.host with hname | hliteral
  · exact (not_mem_regName hname).1
  · obtain ⟨address, haddress, -, hnone⟩ := exists_address hliteral
    rw [haddress]
    simp [hnone]

/-! ### The reader reads the grammar -/

theorem readPort_eq_some {text : List Char} {port : Option (List Char)} :
    readPort text = some port ↔ text = portText port := by
  cases text with
  | nil =>
      cases port with
      | none => exact iff_of_true rfl rfl
      | some port => exact iff_of_false (fun h => by cases h) (fun h => by cases h)
  | cons c rest =>
      show (if (c :: rest).head? = some ':' then some (some rest) else none) = some port ↔ _
      rw [List.head?_cons]
      by_cases hc : c = ':'
      · rw [if_pos (congrArg some hc), hc]
        cases port with
        | none => exact iff_of_false (fun h => by cases h) (fun h => by cases h)
        | some port =>
            constructor
            · intro h
              rw [Option.some.inj (Option.some.inj h)]
              rfl
            · intro h
              rw [(List.cons_eq_cons.1 h).2]
      · rw [if_neg fun h => hc (Option.some.inj h)]
        refine iff_of_false (Option.some_ne_none _).symm fun h => ?_
        cases port with
        | none => cases h
        | some port => exact hc (List.cons_eq_cons.1 h).1

theorem not_mem_portText {port : Option (List Char)} (h : ∀ text ∈ port, isPort text = true) :
    '@' ∉ portText port := by
  cases port with
  | none => exact List.not_mem_nil
  | some port =>
      intro hmem
      rcases List.mem_cons.1 hmem with hc | hmem
      · exact absurd hc (by decide)
      · exact at_not_mem_port (h port rfl) hmem

theorem readUserinfo_text {a : UriAuthority} (h : a.Valid) :
    readUserinfo a.text = (a.userinfo, a.host ++ portText a.port) := by
  rw [text, readUserinfo]
  cases hinfo : a.userinfo with
  | none =>
      have hnone : splitOnce '@' (a.host ++ portText a.port) = none := by
        rw [splitOnce_eq_none, List.mem_append, not_or]
        exact ⟨at_not_mem_host h, not_mem_portText h.port⟩
      show ((splitOnce '@' (a.host ++ portText a.port)).map Prod.fst, _) = _
      rw [userinfoText, List.nil_append, hnone]
      rfl
  | some userinfo =>
      have hsplit : splitOnce '@' (userinfoText (some userinfo) ++ (a.host ++ portText a.port))
          = some (userinfo, a.host ++ portText a.port) := by
        rw [userinfoText, List.append_assoc, List.singleton_append]
        exact splitOnce_append (at_not_mem_userinfo (h.userinfo userinfo hinfo)) _
      rw [hsplit]
      rfl

theorem readHost_text {a : UriAuthority} (h : a.Valid) :
    readHost (a.host ++ portText a.port) = some (a.host, portText a.port) := by
  have hport : ∀ c ∈ (portText a.port).head?, c = ':' := by
    intro c hc
    cases hp : a.port with
    | none =>
        rw [hp] at hc
        cases hc
    | some port =>
        rw [hp] at hc
        exact (Option.some.inj hc).symm
  rw [readHost]
  rcases h.host with hname | hliteral
  · -- A name ends in front of the first colon.
    obtain ⟨-, hcolon, hbracket⟩ := not_mem_regName hname
    have hhead : (a.host ++ portText a.port).head? ≠ some '[' := by
      cases hhost : a.host with
      | nil =>
          intro hhead
          exact absurd (hport '[' hhead) (by decide)
      | cons c rest =>
          intro hhead
          rw [hhost] at hbracket
          exact hbracket (List.mem_cons.2 (.inl (Option.some.inj hhead).symm))
    have hall : ∀ c ∈ a.host, decide (c ≠ ':') = true := by
      intro c hc
      exact decide_eq_true fun heq => hcolon (heq ▸ hc)
    have hstop : (portText a.port).takeWhile (fun c => decide (c ≠ ':')) = [] ∧
        (portText a.port).dropWhile (fun c => decide (c ≠ ':')) = portText a.port := by
      cases a.port with
      | none => exact ⟨rfl, rfl⟩
      | some port => exact ⟨rfl, rfl⟩
    rw [if_neg hhead, List.takeWhile_append_of_pos hall, List.dropWhile_append_of_pos hall,
      hstop.1, hstop.2, List.append_nil]
  · obtain ⟨address, haddress, hnone, -⟩ := exists_address hliteral
    have hclose : ']' ∉ '[' :: address := by
      simp [hnone]
    have hsplit : splitOnce ']' (a.host ++ portText a.port)
        = some ('[' :: address, portText a.port) := by
      have htext : a.host ++ portText a.port = ('[' :: address) ++ ']' :: portText a.port := by
        rw [haddress]
        simp
      rw [htext]
      exact splitOnce_append hclose _
    rw [if_pos (by rw [haddress]; rfl), hsplit, haddress]
    rfl

theorem read_text {a : UriAuthority} (h : a.Valid) : read a.text = some a := by
  rw [read, readUserinfo_text h]
  dsimp only
  rw [readHost_text h, Option.bind_some, readPort_eq_some.2 rfl, Option.bind_some, if_pos h]

theorem text_of_readHost {text host behind : List Char}
    (h : readHost text = some (host, behind)) : host ++ behind = text := by
  rw [readHost] at h
  by_cases hhead : text.head? = some '['
  · rw [if_pos hhead] at h
    obtain ⟨⟨before, after⟩, hsplit, heq⟩ := Option.map_eq_some_iff.1 h
    obtain ⟨rfl, rfl⟩ := Prod.mk.inj heq
    rw [(splitOnce_eq_some hsplit).1, List.append_assoc, List.singleton_append]
  · rw [if_neg hhead] at h
    obtain ⟨rfl, rfl⟩ := Prod.mk.inj (Option.some.inj h)
    exact List.takeWhile_append_dropWhile

theorem text_of_read {text : List Char} {a : UriAuthority} (h : read text = some a) :
    a.Valid ∧ a.text = text := by
  rw [read] at h
  obtain ⟨⟨host, behind⟩, hhost, h⟩ := Option.bind_eq_some_iff.1 h
  obtain ⟨port, hport, h⟩ := Option.bind_eq_some_iff.1 h
  obtain ⟨hvalid, heq⟩ := Option.ite_none_right_eq_some.1 h
  obtain rfl := Option.some.inj heq
  refine ⟨hvalid, ?_⟩
  show userinfoText (readUserinfo text).1 ++ (host ++ portText port) = text
  rw [← readPort_eq_some.1 hport, text_of_readHost hhost, readUserinfo]
  cases hsplit : splitOnce '@' text with
  | none => rfl
  | some parts =>
      rw [(splitOnce_eq_some hsplit).1]
      show parts.1 ++ ['@'] ++ parts.2 = _
      rw [List.append_assoc, List.singleton_append]

/-- Every authority is read in one way. -/
theorem read_eq_some_iff {text : List Char} {a : UriAuthority} :
    read text = some a ↔ a.Valid ∧ a.text = text := by
  constructor
  · exact text_of_read
  · rintro ⟨hvalid, rfl⟩
    exact read_text hvalid

end UriAuthority
