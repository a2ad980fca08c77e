import StarterHub.ConfigLoad
import StarterHub.ConnectionUrl
import StarterHub.Lib.Ipv6

/-!
# Hosts with a colon

A host with a colon is put between brackets as it is.  Read by the generic syntax, the URL either ends the host at the
brackets of its own, or it has no port and fails, unless a `/`, `?` or `#` inside the host ends the authority early:
what stands before it then counts as the host if it closes the bracket by itself.  A literal that comes with its own
brackets gets a second pair, and neither the connection URL nor the address of the server can be split any more.
-/

namespace StarterHub

open PercentEncoding UrlSyntax

/-- The port of an authority: absent, empty, or a number. -/
def parseOptionalPort : Option (List Char) → Option (Option UInt16)
  | none | some [] => some none
  | some (c :: digits) => (parsePort (c :: digits)).map some

/-- What a connection URL consists of, the escaped components decoded as far as they are UTF-8. -/
structure Components where
  username : Option String
  password : Option String
  host : String
  port : Option UInt16
  database : Option String
  deriving DecidableEq

/-- Parses by the generic syntax; a host in brackets stands for itself. -/
def parseComponents (url : String) : Option Components := do
  let url ← parse "postgres" url.toList
  let port ← parseOptionalPort url.authority.port
  return ⟨decodeUtf8 url.authority.username, url.authority.password.bind decodeUtf8,
    String.ofList url.authority.host, port, decodeUtf8 url.path⟩

/-- Splits an address at its host, in brackets if it has any, and its port. -/
def splitAddress (address : String) : Option (String × Option UInt16) := do
  let (host, port) ← parseHost address.toList
  let port ← parseOptionalPort port
  return (String.ofList host, port)

/-- An IPv6 literal with brackets of its own. -/
def IsBracketed (host : String) : Prop :=
  ∃ literal, Ipv6.isLiteral literal = true ∧ host.toList = '[' :: (literal ++ [']'])

/-- An IPv6 literal, with or without brackets of its own. -/
def IsIpv6 (host : String) : Prop := Ipv6.isLiteral host.toList = true ∨ IsBracketed host

/-- The part of the host that still belongs to the authority. -/
def authorityPart (host : String) : List Char := host.toList.takeWhile fun c => !endsAuthority c

/-- The host ends the authority, and what is before this end closes the bracket and has a port or none. -/
def Escapes (host : String) : Prop :=
  authorityPart host ≠ host.toList ∧ ∃ literal port, parseHost ('[' :: authorityPart host) = some (literal, port) ∧
    (parseOptionalPort port).isSome = true

/-- The host stays in its position of the connection URL. -/
structure UrlLaw (target : Postgresql) : Prop where
  confined : ∀ components, parseComponents target.url = some components → components =
    ⟨some target.username, some target.password, target.host, some target.port, some target.database⟩
  accepted : IsIpv6 target.host → (parseComponents target.url).isSome = true

/-- The host stays in its position of the address to bind. -/
structure AddressLaw (server : Server) : Prop where
  confined : ∀ address, splitAddress server.url = some address → address = (server.host, some server.port)
  accepted : IsIpv6 server.host → (splitAddress server.url).isSome = true

/-! ### Brackets -/

theorem splitOnce_eq_some {sep : Char} {cs before after : List Char} (h : splitOnce sep cs = some (before, after)) :
    cs = before ++ sep :: after := by
  induction cs generalizing before with
  | nil => cases h
  | cons c cs ih =>
    unfold splitOnce at h
    split at h
    · next hc =>
      cases h
      rw [hc, List.nil_append]
    · obtain ⟨⟨before', after'⟩, hsplit, hpair⟩ := Option.map_eq_some_iff.1 h
      cases hpair
      rw [ih hsplit, List.cons_append]

theorem parsePort_eq_none {digits : List Char} {c : Char} (hc : c ∈ digits) (h : c.isDigit = false) :
    parsePort digits = none := by
  rw [parsePort, if_neg]
  rintro ⟨-, hdigits, -⟩
  rw [List.all_eq_true.1 hdigits c hc] at h
  cases h

theorem parseOptionalPort_toString (port : UInt16) :
    parseOptionalPort (some (toString port).toList) = some (some port) := by
  have hport := parsePort_toString port
  cases hlist : (toString port).toList with
  | nil =>
    rw [hlist] at hport
    cases hport
  | cons c digits =>
    rw [parseOptionalPort, ← hlist, hport]
    rfl

/-- A host without a closing bracket is split off at its own brackets. -/
theorem parseHost_bracketed {host : List Char} (h : ']' ∉ host) (port : List Char) :
    parseHost ('[' :: (host ++ ']' :: ':' :: port)) = some (host, some port) := by
  rw [parseHost, splitOnce_append h]
  rfl

/-- A host with a closing bracket is never split off with a valid port. -/
theorem port_of_mem_bracket {host digits literal : List Char} {port : Option (List Char)} (h : ']' ∈ host)
    (hparse : parseHost ('[' :: (host ++ ']' :: ':' :: digits)) = some (literal, port)) :
    parseOptionalPort port = none := by
  obtain ⟨before, after, rfl, hbefore⟩ := List.eq_append_cons_of_mem h
  have hsplit := splitOnce_append hbefore (after ++ ']' :: ':' :: digits)
  rw [List.append_assoc, List.cons_append, parseHost, hsplit] at hparse
  split at hparse
  · next heq => simp at heq
  · next rest heq =>
    cases hparse
    simp only [Option.some.injEq, Prod.mk.injEq] at heq
    have hmem : ']' ∈ rest := by
      have : ']' ∈ after ++ ']' :: ':' :: digits := by simp
      rw [heq.2] at this
      simpa using this
    cases rest with
    | nil => cases hmem
    | cons c rest =>
      rw [parseOptionalPort, parsePort_eq_none hmem (by decide)]
      rfl
  · cases hparse

theorem not_bracketed {host : String} (h : ']' ∉ host.toList) : ¬ IsBracketed host := by
  rintro ⟨literal, -, hhost⟩
  exact h (by simp [hhost])

/-- In a literal stands no closing bracket, ... -/
theorem not_mem_of_isLiteral {literal : List Char} (h : Ipv6.isLiteral literal = true) : ']' ∉ literal :=
  fun hmem => absurd (Ipv6.isLiteralChar_of_mem h hmem) (by decide)

/-- A literal with a closing bracket in it has brackets of its own. -/
theorem isBracketed_of_mem {host : String} (h : IsIpv6 host) (hmem : ']' ∈ host.toList) : IsBracketed host := by
  rcases h with h | h
  · exact absurd hmem (not_mem_of_isLiteral h)
  · exact h

/-- ... and neither with nor without brackets of its own the end of an authority. -/
theorem authorityPart_of_isIpv6 {host : String} (h : IsIpv6 host) : authorityPart host = host.toList := by
  have hliteral : ∀ literal, Ipv6.isLiteral literal = true → ∀ c ∈ literal, endsAuthority c = false := by
    intro literal h c hc
    have hchar := Ipv6.isLiteralChar_of_mem h hc
    rw [Bool.eq_false_iff]
    intro hend
    simp only [endsAuthority, Bool.or_eq_true, beq_iff_eq] at hend
    rcases hend with (rfl | rfl) | rfl
    all_goals exact absurd hchar (by decide)
  have hhost : ∀ c ∈ host.toList, endsAuthority c = false := by
    rcases h with h | ⟨literal, h, hhost⟩
    · exact hliteral _ h
    · intro c hc
      rw [hhost, List.mem_cons, List.mem_append, List.mem_singleton] at hc
      rcases hc with rfl | hc | rfl
      · rfl
      · exact hliteral _ h c hc
      · rfl
  exact List.takeWhile_eq_self_iff.2 fun c hc => by rw [hhost c hc]; rfl

/-! ### The address to bind -/

theorem toList_address {server : Server} (h : ':' ∈ server.host.toList) :
    server.url.toList = '[' :: (server.host.toList ++ ']' :: ':' :: (toString server.port).toList) := by
  have hhost : server.host.toList.contains ':' = true := by simpa using h
  have hopen : "[".toList = ['['] := by decide
  have hclose : "]:".toList = [']', ':'] := by decide
  rw [Server.url, if_pos hhost]
  simp [String.toList_append, hopen, hclose]

/-- The address leads to the host iff the host brings no brackets. -/
theorem addressLaw_iff {server : Server} (h : ':' ∈ server.host.toList) :
    AddressLaw server ↔ ¬ IsBracketed server.host := by
  by_cases hbracket : ']' ∈ server.host.toList
  · have hnone : splitAddress server.url = none := by
      rw [splitAddress, toList_address h]
      cases hparse : parseHost ('[' :: (server.host.toList ++ ']' :: ':' :: (toString server.port).toList)) with
      | none => rfl
      | some pair =>
        obtain ⟨literal, port⟩ := pair
        simp [port_of_mem_bracket hbracket hparse]
    constructor
    · intro hlaw hb
      have := hlaw.accepted (.inr hb)
      rw [hnone] at this
      cases this
    · refine fun hb => ⟨fun address haddress => ?_, fun hv => absurd (isBracketed_of_mem hv hbracket) hb⟩
      rw [hnone] at haddress
      cases haddress
  · have hsome : splitAddress server.url = some (server.host, some server.port) := by
      rw [splitAddress, toList_address h, parseHost_bracketed hbracket]
      simp [parseOptionalPort_toString]
    refine iff_of_true ⟨fun address haddress => ?_, fun _ => by rw [hsome]; rfl⟩ (not_bracketed hbracket)
    rw [hsome] at haddress
    exact (Option.some.inj haddress).symm

/-! ### The connection URL -/

section

variable {target : Postgresql}

theorem toList_url_bracketed (h : ':' ∈ target.host.toList) :
    target.url.toList = compose "postgres" (utf8PercentEncode target.username urlEncodeSet).toList
      (utf8PercentEncode target.password urlEncodeSet).toList ('[' :: (target.host.toList ++ [']']))
      (toString target.port).toList (utf8PercentEncode target.database urlEncodeSet).toList := by
  have hhost : target.host.toList.contains ':' = true := by simpa using h
  have hscheme : "postgres://".toList = ("postgres" ++ "://").toList := by decide
  have hcolon : ":".toList = [':'] := by decide
  have hat : "@".toList = ['@'] := by decide
  have hslash : "/".toList = ['/'] := by decide
  have hopen : "[".toList = ['['] := by decide
  have hclose : "]".toList = [']'] := by decide
  simp only [Postgresql.url, hhost, ↓reduceIte, String.join, List.foldl_cons, List.foldl_nil,
    String.empty_append, String.toList_append, hscheme, hcolon, hat, hslash, hopen, hclose, compose,
    List.append_assoc, List.cons_append, List.nil_append]

/-- The userinfo is read back, and the host begins at its bracket. -/
private theorem authority_url (h : ':' ∈ target.host.toList) :
    (parse "postgres" target.url.toList).map Url.authority =
      (parseHost ('[' :: (target.host.toList ++ ']' :: ':' :: ((toString target.port).toList ++ '/' ::
        (utf8PercentEncode target.database urlEncodeSet).toList)).takeWhile fun c => !endsAuthority c)).map
        fun (host, port) => ⟨(utf8PercentEncode target.username urlEncodeSet).toList,
          some (utf8PercentEncode target.password urlEncodeSet).toList, host, port⟩ := by
  have hu := plain_utf8PercentEncode target.username
  have hw := plain_utf8PercentEncode target.password
  have huserinfo : ∀ c ∈ (utf8PercentEncode target.username urlEncodeSet).toList ++
      ':' :: ((utf8PercentEncode target.password urlEncodeSet).toList ++ ['@', '[']), (!endsAuthority c) = true := by
    intro c hc
    simp only [List.mem_append, List.mem_cons, List.not_mem_nil, or_false] at hc
    rcases hc with hc | rfl | hc | rfl | rfl
    · rw [hu.endsAuthority c hc]; rfl
    · decide
    · rw [hw.endsAuthority c hc]; rfl
    · decide
    · decide
  rw [toList_url_bracketed h, compose, parse_authority, ← parseAuthority_userinfo hu hw]
  have htake := @List.takeWhile_append_of_pos _ _ _ (target.host.toList ++ ']' :: ':' ::
    ((toString target.port).toList ++ '/' :: (utf8PercentEncode target.database urlEncodeSet).toList)) huserinfo
  simpa [List.append_assoc] using congrArg parseAuthority htake

/-- What the components are once the generic syntax is through. -/
private theorem parseComponents_eq_some {url : String} {components : Components} :
    parseComponents url = some components ↔ ∃ u port, parse "postgres" url.toList = some u ∧
      parseOptionalPort u.authority.port = some port ∧ components = ⟨decodeUtf8 u.authority.username,
        u.authority.password.bind decodeUtf8, String.ofList u.authority.host, port, decodeUtf8 u.path⟩ := by
  simp only [parseComponents, Option.bind_eq_bind, Option.bind_eq_some_iff, Option.pure_def, Option.some.injEq]
  constructor
  · rintro ⟨u, hu, port, hport, rfl⟩
    exact ⟨u, port, hu, hport, rfl⟩
  · rintro ⟨u, port, hu, hport, rfl⟩
    exact ⟨u, hu, port, hport, rfl⟩

/-- A host that neither ends the authority nor closes the bracket is read back with everything else. -/
private theorem parseComponents_of_plain (h : ':' ∈ target.host.toList)
    (hpart : authorityPart target.host = target.host.toList) (hbracket : ']' ∉ target.host.toList) :
    parseComponents target.url =
      some ⟨some target.username, some target.password, target.host, some target.port, some target.database⟩ := by
  have hset : urlEncodeSet 37 = true := by decide
  have hu := plain_utf8PercentEncode target.username
  have hw := plain_utf8PercentEncode target.password
  have hd := plain_utf8PercentEncode target.database
  have hp := plain_toString target.port
  have hhost : ∀ c ∈ target.host.toList, endsAuthority c = false := by
    intro c hc
    simpa using List.takeWhile_eq_self_iff.1 hpart c hc
  have hauthority : ∀ c ∈ (utf8PercentEncode target.username urlEncodeSet).toList ++
      ':' :: ((utf8PercentEncode target.password urlEncodeSet).toList ++
        '@' :: ('[' :: (target.host.toList ++ ']' :: ':' :: (toString target.port).toList))),
      endsAuthority c = false := by
    intro c hc
    simp only [List.mem_append, List.mem_cons] at hc
    rcases hc with hc | rfl | hc | rfl | rfl | hc | rfl | rfl | hc
    · exact hu.endsAuthority c hc
    · decide
    · exact hw.endsAuthority c hc
    · decide
    · decide
    · exact hhost c hc
    · decide
    · decide
    · exact hp.endsAuthority c hc
  have hparse := parse_of_authority "postgres" hauthority hd
  rw [parseAuthority_userinfo hu hw, parseHost_bracketed hbracket] at hparse
  have hurl : target.url.toList = ("postgres" ++ "://").toList ++
      ((utf8PercentEncode target.username urlEncodeSet).toList ++
        ':' :: ((utf8PercentEncode target.password urlEncodeSet).toList ++
          '@' :: ('[' :: (target.host.toList ++ ']' :: ':' :: (toString target.port).toList))) ++
        '/' :: (utf8PercentEncode target.database urlEncodeSet).toList) := by
    rw [toList_url_bracketed h, compose]
    simp [List.append_assoc]
  rw [← hurl] at hparse
  refine parseComponents_eq_some.2 ⟨_, some target.port, hparse, parseOptionalPort_toString target.port, ?_⟩
  simp [decodeUtf8_utf8PercentEncode hset]

section

variable {url : String} {cs username literal : List Char} {password : Option (List Char)}

private theorem host_of_components {components : Components}
    (h : (parse "postgres" url.toList).map Url.authority =
      (parseHost cs).map fun (host, port) => ⟨username, password, host, port⟩)
    (hc : parseComponents url = some components) :
    ∃ literal port, parseHost cs = some (literal, port) ∧ (parseOptionalPort port).isSome = true := by
  obtain ⟨u, port, hu, hport, -⟩ := parseComponents_eq_some.1 hc
  rw [hu] at h
  obtain ⟨⟨literal, port'⟩, hparse, hauthority⟩ := Option.map_eq_some_iff.1 h.symm
  refine ⟨literal, port', hparse, ?_⟩
  rw [← hauthority] at hport
  rw [hport]
  rfl

private theorem components_of_host {port : Option (List Char)}
    (h : (parse "postgres" url.toList).map Url.authority =
      (parseHost cs).map fun (host, port) => ⟨username, password, host, port⟩)
    (hparse : parseHost cs = some (literal, port)) (hport : (parseOptionalPort port).isSome = true) :
    ∃ components, parseComponents url = some components ∧ components.host = String.ofList literal := by
  obtain ⟨port', hport⟩ := Option.isSome_iff_exists.1 hport
  rw [hparse] at h
  obtain ⟨u, hu, hauthority⟩ := Option.map_eq_some_iff.1 h
  refine ⟨_, parseComponents_eq_some.2 ⟨u, port', hu, ?_, rfl⟩, ?_⟩
  · rw [hauthority]
    exact hport
  · rw [hauthority]

end

/-- A literal in brackets is shorter than what it was read from. -/
private theorem length_of_parseHost {cs literal : List Char} {port : Option (List Char)}
    (h : parseHost ('[' :: cs) = some (literal, port)) : literal.length < cs.length := by
  have hsplit : ∃ rest, splitOnce ']' cs = some (literal, rest) := by
    rw [parseHost] at h
    split at h
    · next hs => cases h; exact ⟨_, hs⟩
    · next hs => cases h; exact ⟨_, hs⟩
    · cases h
  obtain ⟨rest, hsplit⟩ := hsplit
  rw [splitOnce_eq_some hsplit]
  simp

private theorem authorityPart_isPrefix (host : String) : authorityPart host <+: host.toList :=
  List.takeWhile_prefix fun c => !endsAuthority c

/-- The authority goes up to the slash after the port, if the host does not end it. -/
private theorem takeWhile_of_plain (hpart : authorityPart target.host = target.host.toList) (path : List Char) :
    ((target.host.toList ++ ']' :: ':' :: ((toString target.port).toList ++ '/' :: path)).takeWhile fun c =>
      !endsAuthority c) = target.host.toList ++ ']' :: ':' :: (toString target.port).toList := by
  have hp : ∀ c ∈ (toString target.port).toList, (!endsAuthority c) = true := fun c hc => by
    rw [(plain_toString target.port).endsAuthority c hc]
    rfl
  rw [List.takeWhile_append_of_pos (List.takeWhile_eq_self_iff.1 hpart), List.takeWhile_cons_of_pos (by decide),
    List.takeWhile_cons_of_pos (by decide), List.takeWhile_append_of_pos hp, List.takeWhile_cons_of_neg (by decide),
    List.append_nil]

/-- Otherwise it goes as far as the host does not. -/
private theorem takeWhile_of_ends (hpart : authorityPart target.host ≠ target.host.toList) (rest : List Char) :
    ((target.host.toList ++ rest).takeWhile fun c => !endsAuthority c) = authorityPart target.host := by
  rw [List.takeWhile_append, if_neg]
  · rfl
  · intro hlen
    exact hpart ((authorityPart_isPrefix _).eq_of_length hlen)

/-- The host is confined iff it does not escape, and a literal is accepted iff it brings no brackets. -/
theorem urlLaw_iff (h : ':' ∈ target.host.toList) :
    UrlLaw target ↔ ¬ Escapes target.host ∧ ¬ IsBracketed target.host := by
  have hurl := authority_url h
  by_cases hpart : authorityPart target.host = target.host.toList
  · have hescapes : ¬ Escapes target.host := fun he => he.1 hpart
    by_cases hbracket : ']' ∈ target.host.toList
    · -- the first bracket inside the host leaves no valid port
      rw [takeWhile_of_plain hpart] at hurl
      have hnone : ∀ components, parseComponents target.url ≠ some components := by
        intro components hc
        obtain ⟨literal, port, hparse, hport⟩ := host_of_components hurl hc
        rw [port_of_mem_bracket hbracket hparse] at hport
        cases hport
      constructor
      · refine fun hlaw => ⟨hescapes, fun hb => ?_⟩
        obtain ⟨components, hc⟩ := Option.isSome_iff_exists.1 (hlaw.accepted (.inr hb))
        exact hnone components hc
      · rintro ⟨-, hb⟩
        exact ⟨fun components hc => absurd hc (hnone components), fun hv => absurd (isBracketed_of_mem hv hbracket) hb⟩
    · have hsome := parseComponents_of_plain h hpart hbracket
      refine iff_of_true ⟨fun components hc => ?_, fun _ => by rw [hsome]; rfl⟩ ⟨hescapes, not_bracketed hbracket⟩
      rw [hsome] at hc
      exact (Option.some.inj hc).symm
  · have hv : ¬ IsIpv6 target.host := fun hv => hpart (authorityPart_of_isIpv6 hv)
    rw [takeWhile_of_ends hpart] at hurl
    constructor
    · refine fun hlaw => ⟨?_, fun hb => hv (.inr hb)⟩
      rintro ⟨-, literal, port, hparse, hport⟩
      obtain ⟨components, hc, hhost⟩ := components_of_host hurl hparse hport
      -- what is read off is shorter than the host
      have hlt := length_of_parseHost hparse
      have hle : (authorityPart target.host).length ≤ target.host.toList.length := (authorityPart_isPrefix _).length_le
      rw [hlaw.confined components hc] at hhost
      have hlen : target.host.toList.length = literal.length := by
        rw [show target.host = String.ofList literal from hhost, String.toList_ofList]
      omega
    · rintro ⟨hescapes, -⟩
      refine ⟨fun components hc => ?_, fun h => absurd h hv⟩
      obtain ⟨literal, port, hparse, hport⟩ := host_of_components hurl hc
      exact absurd ⟨hpart, literal, port, hparse, hport⟩ hescapes

end

/-- Which hosts with a colon keep their position, in the connection URL and in the address to bind. -/
theorem host_confinement (target : Postgresql) (server : Server) (htarget : ':' ∈ target.host.toList)
    (hserver : ':' ∈ server.host.toList) :
    (UrlLaw target ↔ ¬ Escapes target.host ∧ ¬ IsBracketed target.host) ∧
      (AddressLaw server ↔ ¬ IsBracketed server.host) :=
  ⟨urlLaw_iff htarget, addressLaw_iff hserver⟩

/-- An IPv6 literal with a zone stays where it is, in both. -/
theorem host_confinement_zone :
    UrlLaw { (Config.default "app" "1.0.0").database with host := "fe80::1%eth0" } ∧
      AddressLaw { (Config.default "app" "1.0.0").server with host := "fe80::1%eth0" } := by
  have hbracket : ']' ∉ "fe80::1%eth0".toList := by decide
  obtain ⟨hurl, haddress⟩ := host_confinement
    { (Config.default "app" "1.0.0").database with host := "fe80::1%eth0" }
    { (Config.default "app" "1.0.0").server with host := "fe80::1%eth0" } (by decide) (by decide)
  exact ⟨hurl.2 ⟨fun he => he.1 (by decide), not_bracketed hbracket⟩, haddress.2 (not_bracketed hbracket)⟩

/-- A literal with its own brackets is refused in both places, and a slash after a closed bracket moves the target:
both hosts load. -/
theorem host_confinement_fails :
    (∃ config, Config.load "app" "1.0.0" { vars := [("APP_DATABASE__HOST", "[::1]"), ("APP_SERVER__HOST", "[::1]")] } =
      .ok config ∧ ¬ UrlLaw config.database ∧ ¬ AddressLaw config.server) ∧
    ∃ config, Config.load "app" "1.0.0" { vars := [("APP_DATABASE__HOST", "::1]/")] } = .ok config ∧
      ¬ UrlLaw config.database := by
  have hbracketed : IsBracketed "[::1]" := ⟨"::1".toList, by decide, by decide⟩
  have hescapes : Escapes "::1]/" := ⟨by decide, "::1".toList, none, by decide, by decide⟩
  constructor
  · refine ⟨{ Config.default "app" "1.0.0" with
      server := { host := "[::1]", port := 8080, timeout := 30 }
      database := { (Config.default "app" "1.0.0").database with host := "[::1]" } }, by rfl, fun h => ?_, fun h => ?_⟩
    · exact ((urlLaw_iff (by decide)).1 h).2 hbracketed
    · exact (addressLaw_iff (by decide)).1 h hbracketed
  · refine ⟨{ Config.default "app" "1.0.0" with
      database := { (Config.default "app" "1.0.0").database with host := "::1]/" } }, by rfl, fun h => ?_⟩
    exact ((urlLaw_iff (by decide)).1 h).1 hescapes

end StarterHub
