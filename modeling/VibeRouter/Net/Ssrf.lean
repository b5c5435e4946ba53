import VibeRouter.Platform

/-! # The check of provider base URLs

The pattern-level check made at request time: a cloud provider must be at a public `https`
address, a provider of the local tier must not be. -/

namespace VibeRouter

inductive HostClass
  | loopback | private_ | linklocal | metadata | dockerdns | public_
deriving DecidableEq, Repr

def HostClass.text : HostClass → String
  | loopback => "loopback"
  | private_ => "private"
  | linklocal => "linklocal"
  | metadata => "metadata"
  | dockerdns => "dockerdns"
  | public_ => "public"

/-- `172.16.` to `172.31.`. -/
def isPrivate172 (ip : List Char) : Bool :=
  "172.1".toList <+: ip ∧ (ip.drop 5).take 2 ∈ ["6.", "7.", "8.", "9."].map String.toList ∨
    "172.2".toList <+: ip ∧ ((ip.drop 5).take 1).any Char.isDigit ∧ (ip.drop 6).take 1 = ['.'] ∨
    "172.3".toList <+: ip ∧ (ip.drop 5).take 2 ∈ ["0.", "1."].map String.toList

/-- An IPv4-mapped address is classified by what follows its prefix. -/
def classifyIpChars : ℕ → List Char → HostClass
  | 0, _ => .public_
  | fuel + 1, ip =>
      let lower := ip.map Char.toLower
      if ip = "169.254.169.254".toList then .metadata
      else if "127.".toList <+: ip ∨ ip = "0.0.0.0".toList ∨ ip = "::1".toList then .loopback
      else if "10.".toList <+: ip ∨ "192.168.".toList <+: ip then .private_
      else if isPrivate172 ip then .private_
      else if "169.254.".toList <+: ip then .linklocal
      else if "fe80:".toList <+: lower then .linklocal
      else if "fc".toList <+: lower ∨ "fd".toList <+: lower then .private_
      else if "::ffff:".toList <+: lower then classifyIpChars fuel (lower.drop 7)
      else .public_

def classifyIp (ip : String) : HostClass := classifyIpChars (ip.toList.length + 1) ip.toList

/-- `hostname.replace(/^\[|\]$/g, '')`. -/
def stripBrackets (hostname : String) : String :=
  let cs := hostname.toList
  let cs := if cs.head? = some '[' then cs.tail else cs
  String.ofList (if cs.getLast? = some ']' then cs.dropLast else cs)

variable [Platform]

def classifyHost (hostname : String) : HostClass :=
  let bare := stripBrackets hostname
  if Platform.isIP bare then classifyIp bare
  else
    let lower := bare.toList.map Char.toLower
    if lower = "localhost".toList ∨ ".localhost".toList <:+ lower then .loopback
    else if ".local".toList <:+ lower ∨ ".internal".toList <:+ lower ∨ ".lan".toList <:+ lower then
      .private_
    else if '.' ∉ lower then .dockerdns
    else .public_

/-- `reason` is absent when the URL is accepted. -/
structure SsrfVerdict where
  ok : Bool
  reason : Option String := none
deriving DecidableEq

def checkBaseUrl (kind : ProviderKind) (baseUrl : String) : SsrfVerdict :=
  match Platform.parseUrl baseUrl with
  | none => ⟨false, some "base_url is not a valid URL"⟩
  | some url =>
      let cls := classifyHost url.hostname
      if isLocalKind kind then
        if cls = .public_ then
          ⟨false, some ("local providers must point at a LAN/docker address — a public host " ++
            "would bypass the data boundary")⟩
        else if cls = .metadata then
          ⟨false, some "metadata endpoint is never a valid provider"⟩
        else ⟨true, none⟩
      else if url.protocol ≠ "https:" then ⟨false, some "cloud providers require https"⟩
      else if cls ≠ .public_ then
        ⟨false, some ("cloud provider base_url must be a public host (got " ++ cls.text ++
          "); use kind \"local\" for on-network gateways")⟩
      else ⟨true, none⟩

end VibeRouter
