import BetterMQ.Partition.Route

/-!
# Egress checks of destinations

A destination is checked when it is stored (`validate_destination_url`) and pinned to one address
when it is used (`pin_destination_addr`). The URL parser, the parser of addresses and the resolver
are parameters; `Env.ReadsLiterals` says what they do with an address in the URL, whose text is no
blocked name.

* **`pin_is_unblocked`** — a pinned address was answered, and no answer is blocked;
* **`literal_checks_agree_iff`** — the two checks differ on blocked IPv6 addresses, and on no other
  literal.
-/

namespace BetterMQ

namespace Egress

structure Ipv4Addr where
  (a b c d : UInt8)
deriving DecidableEq

structure Ipv6Addr where
  (s0 s1 s2 s3 s4 s5 s6 s7 : UInt16)
deriving DecidableEq

inductive IpAddr where
  | v4 (ip : Ipv4Addr)
  | v6 (ip : Ipv6Addr)
deriving DecidableEq

def Ipv4Addr.isPrivate (ip : Ipv4Addr) : Bool :=
  ip.a == 10 || (ip.a == 172 && 16 ≤ ip.b && ip.b ≤ 31) || (ip.a == 192 && ip.b == 168)

/-- The address in an IPv4-mapped one, `::ffff:a.b.c.d`. -/
def Ipv6Addr.toIpv4Mapped : Ipv6Addr → Option Ipv4Addr
  | ⟨0, 0, 0, 0, 0, 0xffff, ab, cd⟩ =>
    some ⟨(ab >>> 8).toUInt8, ab.toUInt8, (cd >>> 8).toUInt8, cd.toUInt8⟩
  | _ => none

def isBlockedV4 (allowPrivate : Bool) (ip : Ipv4Addr) : Bool :=
  if (ip.a == 169 && ip.b == 254) || ip == ⟨0, 0, 0, 0⟩ then true
  else if ip.a == 127 then !allowPrivate
  else if !allowPrivate && (ip.isPrivate || ip == ⟨255, 255, 255, 255⟩) then true
  else !allowPrivate && (ip.a == 100 && (ip.b &&& 0b11000000) == 0b01000000
      || ip.a == 192 && ip.b == 0 && ip.c == 0
      || ip.a == 192 && ip.b == 0 && ip.c == 2
      || ip.a == 198 && (ip.b == 18 || ip.b == 19)
      || ip.a == 198 && ip.b == 51 && ip.c == 100
      || ip.a == 203 && ip.b == 0 && ip.c == 113)

def isBlockedDestinationIp (allowPrivate : Bool) : IpAddr → Bool
  | .v4 ip => isBlockedV4 allowPrivate ip
  | .v6 ip =>
    if ip = ⟨0, 0, 0, 0, 0, 0, 0, 0⟩ then true
    else if ip = ⟨0, 0, 0, 0, 0, 0, 0, 1⟩ then !allowPrivate
    else if ip.s0 &&& 0xff00 == 0xff00 then true
    else if ip.s0 == 0x2001 && ip.s1 == 0x0db8 then true
    else if ip.s0 &&& 0xffc0 == 0xfe80 then true
    else if !allowPrivate && ip.s0 &&& 0xfe00 == 0xfc00 then true
    else ip.toIpv4Mapped.any (isBlockedV4 allowPrivate)

def endsWith (host suffix : String) : Bool := suffix.toList.isSuffixOf host.toList

def isBlockedHostname (host : String) (allowPrivate : Bool) : Bool :=
  if host == "localhost" || endsWith host ".localhost" then !allowPrivate
  else host == "metadata.google.internal" || host == "metadata"
    || endsWith host ".metadata.google.internal" || host == "instance-data"
    || endsWith host ".instance-data" || host == "metadata.azure.com"
    || endsWith host ".internal" && "metadata".toList <:+: host.toList

inductive EgressError where
  | invalidUrl | badScheme | missingHost | hostNotAllowed | resolveFailed
deriving DecidableEq

inductive Host where
  | domain (name : String)
  | ipv4 (ip : Ipv4Addr)
  | ipv6 (ip : Ipv6Addr)
deriving DecidableEq

structure Url where
  scheme : String
  host : Option Host
  portOrKnownDefault : Option UInt16

def Url.port (url : Url) : UInt16 :=
  url.portOrKnownDefault.getD (if url.scheme = "https" then 443 else 80)

abbrev SocketAddr := IpAddr × UInt16

structure Env where
  /-- The variable `BETTERMQ_ALLOW_PRIVATE_DESTINATIONS`. -/
  allowVar : Option String
  parseUrl : String → Option Url
  /-- `host.parse::<IpAddr>()`. -/
  hostIp : Host → Option IpAddr
  /-- `lookup_host` of a host and a port. -/
  lookupHost : UInt16 → Host → Option (List SocketAddr)

/-- The text of an IPv4 address reads back as one. An IPv6 address stands in brackets and does not,
and the resolver answers it with itself. -/
structure Env.ReadsLiterals (env : Env) : Prop where
  ipv4 : ∀ ip, env.hostIp (.ipv4 ip) = some (.v4 ip)
  ipv6 : ∀ ip, env.hostIp (.ipv6 ip) = none
  lookup : ∀ ip port, env.lookupHost port (.ipv6 ip) = some [(.v6 ip, port)]

variable (env : Env) {allowPrivate : Bool}

def Env.allowPrivateDestinations : Bool :=
  (env.allowVar.map trim).any (["1", "true", "TRUE", "yes"].contains ·)

def Host.toAsciiLowercase : Host → Host
  | .domain name => .domain (String.ofList (name.toList.map Char.toLower))
  | host => host

def Host.isBlocked (allowPrivate : Bool) : Host → Bool
  | .domain name => isBlockedHostname name allowPrivate
  | _ => false

def okOr {ε α : Type} (o : Option α) (e : ε) : Except ε α := o.elim (.error e) .ok

theorem okOr_eq_ok {ε α : Type} {o : Option α} {e : ε} {a : α} (h : okOr o e = .ok a) :
    o = some a := by
  cases o with
  | none => cases h
  | some _ =>
    cases h
    rfl

def Env.validateDestinationUrlWith (raw : String) (allowPrivate : Bool) :
    Except EgressError Unit := do
  let parsed ← okOr (env.parseUrl (trim raw)) .invalidUrl
  ensure (parsed.scheme = "http" ∨ parsed.scheme = "https") .badScheme
  let host ← okOr (parsed.host.map Host.toAsciiLowercase) .missingHost
  ensure (host.isBlocked allowPrivate = false) .hostNotAllowed
  ensure ((env.hostIp host).any (isBlockedDestinationIp allowPrivate) = false) .hostNotAllowed

def Env.validateDestinationUrl (raw : String) : Except EgressError Unit :=
  env.validateDestinationUrlWith raw env.allowPrivateDestinations

def Env.pinDestinationAddr (raw : String) : Except EgressError (Option (Host × SocketAddr)) := do
  let allowPrivate := env.allowPrivateDestinations
  env.validateDestinationUrlWith raw allowPrivate
  let parsed ← okOr (env.parseUrl (trim raw)) .invalidUrl
  let host ← okOr (parsed.host.map Host.toAsciiLowercase) .missingHost
  match env.hostIp host with
  | some ip =>
    ensure (isBlockedDestinationIp allowPrivate ip = false) .hostNotAllowed
    return some (host, ip, parsed.port)
  | none =>
    let addrs ← okOr (env.lookupHost parsed.port host) .resolveFailed
    match addrs with
    | [] => throw .resolveFailed
    | first :: _ =>
      ensure (∀ addr ∈ addrs, isBlockedDestinationIp allowPrivate addr.1 = false) .hostNotAllowed
      return some (host, first)

/-! ## Pinned addresses -/

/-- Neither the address nor the one mapped in it is blocked. -/
def Unblocked (allowPrivate : Bool) (ip : IpAddr) : Prop :=
  isBlockedDestinationIp allowPrivate ip = false ∧
    ∀ v6 v4, ip = .v6 v6 → v6.toIpv4Mapped = some v4 → isBlockedV4 allowPrivate v4 = false

theorem unblocked_of_eq_false {ip : IpAddr} (h : isBlockedDestinationIp allowPrivate ip = false) :
    Unblocked allowPrivate ip := by
  refine ⟨h, ?_⟩
  rintro v6 v4 rfl hmapped
  -- the last of the tests is the one of the mapped address
  rw [isBlockedDestinationIp] at h
  grind [Ipv6Addr.toIpv4Mapped]

variable {env} {raw : String}

theorem validate_scheme {url : Url} (h : env.validateDestinationUrlWith raw allowPrivate = .ok ())
    (hurl : env.parseUrl (trim raw) = some url) : url.scheme = "http" ∨ url.scheme = "https" := by
  obtain ⟨url', hurl', h⟩ := exists_of_bind_eq_ok h
  cases (okOr_eq_ok hurl').symm.trans hurl
  obtain ⟨_, hscheme, -⟩ := exists_of_bind_eq_ok h
  exact ensure_eq_ok_iff.mp hscheme

/-- **Pinning**: the scheme is right, the address is the literal in the URL or one of the answers,
and no answer is blocked, directly or as a mapped address. -/
theorem pin_is_unblocked {host : Host} {addr : SocketAddr}
    (h : env.pinDestinationAddr raw = .ok (some (host, addr))) :
    ∃ url, env.parseUrl (trim raw) = some url ∧ (url.scheme = "http" ∨ url.scheme = "https") ∧
      url.host.map Host.toAsciiLowercase = some host ∧ ∃ answers,
        (env.hostIp host = some addr.1 ∧ answers = [addr] ∨
          env.lookupHost url.port host = some answers) ∧
        addr ∈ answers ∧ ∀ answer ∈ answers, Unblocked env.allowPrivateDestinations answer.1 := by
  obtain ⟨_, hvalid, h⟩ := exists_of_bind_eq_ok h
  obtain ⟨url, hurl, h⟩ := exists_of_bind_eq_ok h
  obtain ⟨host', hhost, h⟩ := exists_of_bind_eq_ok h
  refine ⟨url, okOr_eq_ok hurl, validate_scheme hvalid (okOr_eq_ok hurl), ?_⟩
  split at h
  · next ip hip =>
    obtain ⟨_, hblocked, h⟩ := exists_of_bind_eq_ok h
    cases h
    refine ⟨okOr_eq_ok hhost, _, .inl ⟨hip, rfl⟩, List.mem_singleton_self _, ?_⟩
    exact List.forall_mem_singleton.mpr (unblocked_of_eq_false (ensure_eq_ok_iff.mp hblocked))
  · obtain ⟨answers, hanswers, h⟩ := exists_of_bind_eq_ok h
    split at h
    · cases h
    · obtain ⟨_, hblocked, h⟩ := exists_of_bind_eq_ok h
      cases h
      refine ⟨okOr_eq_ok hhost, _, .inr (okOr_eq_ok hanswers), .head _, ?_⟩
      exact fun answer hmem => unblocked_of_eq_false (ensure_eq_ok_iff.mp hblocked answer hmem)

/-- An environment in which every text is one URL with the host. -/
def Env.reading (host : Host) (answers : List SocketAddr) : Env where
  allowVar := none
  parseUrl _ := some ⟨"https", some host, some 443⟩
  hostIp
    | .ipv4 ip => some (.v4 ip)
    | _ => none
  lookupHost port
    | .ipv6 ip => some [(.v6 ip, port)]
    | _ => some answers

theorem name_is_pinned :
    let env := Env.reading (.domain "example.com") [(.v4 ⟨1, 1, 1, 1⟩, 443)]
    env.pinDestinationAddr "https://Example.com/"
        = .ok (some (.domain "example.com", .v4 ⟨1, 1, 1, 1⟩, 443)) ∧
      ∃ answers : List SocketAddr, (.v4 ⟨1, 1, 1, 1⟩, 443) ∈ answers ∧
        ∀ answer ∈ answers, Unblocked false answer.1 := by
  refine and_of (fun hpin => ?_) (by decide)
  obtain ⟨_, _, _, _, answers, _, hanswers⟩ := pin_is_unblocked hpin
  exact ⟨answers, hanswers⟩

/-! ## Literal hosts -/

/-- **The two checks of a literal** agree exactly if it is no blocked IPv6 address. -/
theorem literal_checks_agree_iff {url : Url} {host : Host} (henv : env.ReadsLiterals)
    (hurl : env.parseUrl (trim raw) = some url) (hhost : url.host = some host)
    (hliteral : ∀ name, host ≠ .domain name) :
    ((env.validateDestinationUrl raw).isOk = (env.pinDestinationAddr raw).isOk ↔
      ∀ ip, host = .ipv6 ip → url.scheme = "http" ∨ url.scheme = "https" →
        isBlockedDestinationIp env.allowPrivateDestinations (.v6 ip) = false) := by
  simp only [Env.validateDestinationUrl, Env.pinDestinationAddr, Env.validateDestinationUrlWith,
    hurl, hhost, okOr, Option.elim_some, Option.map_some, bind, Except.bind, ensure]
  by_cases hscheme : url.scheme = "http" ∨ url.scheme = "https"
  · simp only [if_pos hscheme]
    cases host with
    | domain name => exact absurd rfl (hliteral name)
    | ipv4 ip =>
      -- the address is checked twice
      cases hblocked : isBlockedDestinationIp env.allowPrivateDestinations (.v4 ip) <;>
        simp [hblocked, Host.toAsciiLowercase, Host.isBlocked, henv.ipv4, Except.isOk,
          Except.toBool, pure, Except.pure]
    | ipv6 ip =>
      -- only the resolver's answer is checked
      cases hblocked : isBlockedDestinationIp env.allowPrivateDestinations (.v6 ip) <;>
        simp [hblocked, hscheme, Host.toAsciiLowercase, Host.isBlocked, henv.ipv6, henv.lookup,
          Except.isOk, Except.toBool, pure, Except.pure]
  · simp [hscheme, Except.isOk, Except.toBool]

theorem public_address_checks_agree :
    let env := Env.reading (.ipv4 ⟨1, 1, 1, 1⟩) []
    (env.validateDestinationUrl "https://1.1.1.1/").isOk
      = (env.pinDestinationAddr "https://1.1.1.1/").isOk :=
  (@literal_checks_agree_iff _ "https://1.1.1.1/" _ (.ipv4 ⟨1, 1, 1, 1⟩)
    ⟨fun _ => rfl, fun _ => rfl, fun _ _ => rfl⟩ rfl rfl nofun).mpr nofun

/-- `https://[::1]/` is accepted when it is stored and refused when it is used. -/
theorem loopback_passes_first_check :
    let env := Env.reading (.ipv6 ⟨0, 0, 0, 0, 0, 0, 0, 1⟩) []
    env.validateDestinationUrl "https://[::1]/" = .ok () ∧
      env.pinDestinationAddr "https://[::1]/" = .error .hostNotAllowed := by
  decide

end Egress

end BetterMQ
