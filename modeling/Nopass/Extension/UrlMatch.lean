import Nopass.Core.Domain

/-!
# Origins that a saved login may be filled into

The scheme, the port and the host of the saved address are compared with those of the page.
A login saved for a registrable domain also fills the hosts under it. The list of public
suffixes may hold a suffix below such a domain: a host under that suffix is a site of its
own, and the login fills it all the same.
-/

namespace Nopass

/-- What a parsed URL shows; the port is empty when it is the scheme's default. -/
structure Url where
  protocol : String
  hostname : String
  port : String
  deriving DecidableEq, Repr

/-- `LOOPBACK_HOSTS`. -/
def loopbackHosts : List String := ["localhost", "127.0.0.1", "[::1]"]

/-- `isLoopback`. -/
def isLoopback (hostname : String) : Bool :=
  decide (hostname ∈ loopbackHosts) || endsWith hostname ".localhost"

/-- `registrableDomain`: null for addresses and bare suffixes. -/
def registrableDomain (psl : SuffixList) (hostname : String) : Option String :=
  (psl.domain hostname.toList).map String.ofList

/-- `defaultPort`. -/
def defaultPort (protocol : String) : String := if protocol = "https:" then "443" else "80"

/-- `port || defaultPort(protocol)`. -/
def portOr (port protocol : String) : String :=
  if port.isEmpty then defaultPort protocol else port

/-- `hostMatches`. -/
def hostMatches (psl : SuffixList) (itemHost pageHost : String) : Bool :=
  if itemHost = pageHost then true
  else if !endsWith pageHost ("." ++ itemHost) then false
  else decide (registrableDomain psl itemHost = some itemHost)

/-- What `originMatches` asks of the schemes. -/
def schemesMatch (item page : Url) : Bool :=
  if item.protocol ≠ "https:" ∧ item.protocol ≠ "http:" then false
  else if page.protocol = "http:" then
    !(decide (item.protocol ≠ "http:") && !isLoopback page.hostname)
  else decide (page.protocol = "https:")

/-- What `originMatches` asks of the ports: the item's port counts when the schemes agree. -/
def portsMatch (item page : Url) : Bool :=
  let itemPort := if item.protocol = page.protocol then portOr item.port page.protocol
    else defaultPort page.protocol
  decide (itemPort = portOr page.port page.protocol)

/-- `originMatches`. -/
def originMatches (parseUrl : String → Option Url) (psl : SuffixList) (itemUrl pageOrigin : String) :
    Bool :=
  match parseUrl itemUrl, parseUrl pageOrigin with
  | some item, some page =>
    !item.hostname.isEmpty && !page.hostname.isEmpty && schemesMatch item page &&
      portsMatch item page && hostMatches psl item.hostname page.hostname
  | _, _ => false

/-! ## What a match means -/

section Match

variable {parseUrl : String → Option Url} {psl : SuffixList} {itemUrl pageOrigin : String}
  {itemHost pageHost : String}

/-- The suffix test on hosts. -/
theorem endsWith_dot_iff : endsWith pageHost ("." ++ itemHost) = true ↔
    Domain.Under pageHost.toList itemHost.toList := by
  rw [endsWith, List.isSuffixOf_iff_suffix, String.toList_append]
  exact Iff.rfl

/-- A host is its own registrable domain. -/
theorem registrableDomain_eq_some_iff {host domain : String} :
    registrableDomain psl host = some domain ↔ psl.domain host.toList = some domain.toList := by
  rw [registrableDomain, Option.map_eq_some_iff]
  constructor
  · rintro ⟨name, hname, rfl⟩
    rw [hname, String.toList_ofList]
  · intro h
    exact ⟨domain.toList, h, String.ofList_toList⟩

/-- Hosts match when they are equal or the page is under an item host that is registrable. -/
theorem hostMatches_iff : hostMatches psl itemHost pageHost = true ↔
    itemHost = pageHost ∨ (Domain.Under pageHost.toList itemHost.toList ∧
      registrableDomain psl itemHost = some itemHost) := by
  rw [hostMatches]
  by_cases heq : itemHost = pageHost
  · simp [heq]
  · rw [if_neg heq, ← endsWith_dot_iff]
    cases endsWith pageHost ("." ++ itemHost) with
    | true => simp [heq]
    | false => simp [heq]

/-- What a match asks of parsed addresses. -/
theorem originMatches_iff : originMatches parseUrl psl itemUrl pageOrigin = true ↔
    ∃ item page, parseUrl itemUrl = some item ∧ parseUrl pageOrigin = some page ∧
      (item.hostname.isEmpty = false ∧ page.hostname.isEmpty = false) ∧
      schemesMatch item page = true ∧ portsMatch item page = true ∧
      hostMatches psl item.hostname page.hostname = true := by
  unfold originMatches
  cases parseUrl itemUrl with
  | none => simp
  | some item =>
    cases parseUrl pageOrigin with
    | none => simp
    | some page => simp [Bool.and_eq_true, and_assoc]

/-- A page that a login may be filled into by its scheme. -/
def SchemeAllowed (item page : Url) : Prop :=
  page.protocol = "https:" ∨ (page.protocol = "http:" ∧
    (item.protocol = "http:" ∨ isLoopback page.hostname = true))

/-- The schemes match only so, for items of the web. -/
theorem schemesMatch_iff {item page : Url} : schemesMatch item page = true ↔
    (item.protocol = "https:" ∨ item.protocol = "http:") ∧ SchemeAllowed item page := by
  unfold schemesMatch SchemeAllowed
  by_cases hitem : item.protocol ≠ "https:" ∧ item.protocol ≠ "http:"
  · rw [if_pos hitem]
    simp [hitem.1, hitem.2]
  · have hweb : item.protocol = "https:" ∨ item.protocol = "http:" := by
      by_contra h
      exact hitem (not_or.mp h)
    rw [if_neg hitem]
    by_cases hpage : page.protocol = "http:"
    · have hne : ¬ "http:" = "https:" := by decide
      rw [if_pos hpage, hpage]
      by_cases hhttp : item.protocol = "http:"
      · simp [hhttp]
      · simp [hweb.resolve_right hhttp]
    · simp [hpage, hweb]

/-- The effective ports agree; an item of the other scheme counts with the page's default. -/
def PortsAgree (item page : Url) : Prop :=
  (if item.protocol = page.protocol then portOr item.port item.protocol
    else defaultPort page.protocol) = portOr page.port page.protocol

/-- The ports match exactly when they agree. -/
theorem portsMatch_iff {item page : Url} : portsMatch item page = true ↔ PortsAgree item page := by
  unfold portsMatch PortsAgree
  rw [decide_eq_true_eq]
  by_cases heq : item.protocol = page.protocol
  · rw [if_pos heq, if_pos heq, heq]
  · rw [if_neg heq, if_neg heq]

/-- No listed suffix of the page's host lies below the item's host, and the page's host is no
address. -/
def NoSuffixBetween (psl : SuffixList) (itemHost pageHost : String) : Prop :=
  psl.isIp pageHost.toList = false ∧ ∀ s ∈ Domain.chain pageHost.toList, psl.listed s = true →
    ¬ Domain.Under s itemHost.toList

/-- The hosts are the same, or the item's host is registrable and the page's host is under it; it
is then the registrable domain of the page's host exactly when no suffix lies between them. -/
def HostsAgree (psl : SuffixList) (itemHost pageHost : String) : Prop :=
  itemHost = pageHost ∨ (registrableDomain psl itemHost = some itemHost ∧
    Domain.Under pageHost.toList itemHost.toList ∧
    (registrableDomain psl pageHost = some itemHost ↔ NoSuffixBetween psl itemHost pageHost))

/-- Hosts that match agree. -/
theorem hostsAgree_of_hostMatches (h : hostMatches psl itemHost pageHost = true) :
    HostsAgree psl itemHost pageHost := by
  rcases hostMatches_iff.mp h with heq | ⟨hunder, hown⟩
  · exact Or.inl heq
  · right
    refine ⟨hown, hunder, ?_⟩
    rw [registrableDomain_eq_some_iff] at hown ⊢
    exact SuffixList.domain_eq_of_under hunder hown

/-- A login is filled only where scheme, port and host agree, and under another registrable domain
only when a listed suffix lies between the hosts. -/
theorem originMatches_agrees (h : originMatches parseUrl psl itemUrl pageOrigin = true) :
    ∃ item page, parseUrl itemUrl = some item ∧ parseUrl pageOrigin = some page ∧
      SchemeAllowed item page ∧ PortsAgree item page ∧
      HostsAgree psl item.hostname page.hostname ∧
      (NoSuffixBetween psl item.hostname page.hostname → ∀ a b,
        registrableDomain psl item.hostname = some a →
        registrableDomain psl page.hostname = some b → a = b) := by
  obtain ⟨item, page, hitem, hpage, -, hschemes, hports, hhosts⟩ := originMatches_iff.mp h
  have hagree := hostsAgree_of_hostMatches hhosts
  refine ⟨item, page, hitem, hpage, (schemesMatch_iff.mp hschemes).2, portsMatch_iff.mp hports,
    hagree, fun hnone a b ha hb => ?_⟩
  rcases hagree with heq | ⟨hown, -, hiff⟩
  · rw [heq, hb] at ha
    exact (Option.some.inj ha).symm
  · have hpage := hiff.mpr hnone
    have hai : item.hostname = a := Option.some.inj (hown.symm.trans ha)
    have hbi : item.hostname = b := Option.some.inj (hpage.symm.trans hb)
    rw [← hai, hbi]

end Match

/-- Two suffixes, one of them below a registrable domain. -/
private def hostingSuffixes : SuffixList where
  listed s := decide (s = "com".toList) || decide (s = "s3.example.com".toList)
  isIp _ := false

/-- Addresses without a path. -/
private def parseHost (url : String) : Option Url :=
  if startsWith url "https://" then some ⟨"https:", String.ofList (url.toList.drop 8), ""⟩
  else if startsWith url "http://" then some ⟨"http:", String.ofList (url.toList.drop 7), ""⟩
  else none

/-- A login of a registrable domain is filled under it. -/
theorem originMatches_agrees_under :
    originMatches parseHost hostingSuffixes "http://example.com" "https://a.example.com" = true ∧
    ∃ item page, parseHost "http://example.com" = some item ∧
      parseHost "https://a.example.com" = some page ∧
      SchemeAllowed item page ∧ PortsAgree item page ∧
      HostsAgree hostingSuffixes item.hostname page.hostname ∧
      (NoSuffixBetween hostingSuffixes item.hostname page.hostname → ∀ a b,
        registrableDomain hostingSuffixes item.hostname = some a →
        registrableDomain hostingSuffixes page.hostname = some b → a = b) := by
  have hmatch : originMatches parseHost hostingSuffixes "http://example.com"
      "https://a.example.com" = true := by decide
  exact ⟨hmatch, originMatches_agrees hmatch⟩

/-- What a match would mean if suffixes did not nest and ports were each item's own. -/
structure StaysOnSite (psl : SuffixList) (item page : Url) : Prop where
  scheme : SchemeAllowed item page
  port : (if item.protocol = "http:" ∧ page.protocol = "https:" then "443"
    else portOr item.port item.protocol) = portOr page.port page.protocol
  host : item.hostname = page.hostname ∨
    (registrableDomain psl item.hostname = some item.hostname ∧
      registrableDomain psl page.hostname = some item.hostname)

/-- A login is filled into a site under a listed suffix below its own, and from the port 443 into
the port 80 of a loopback page. -/
theorem not_staysOnSite_of_nested :
    (originMatches parseHost hostingSuffixes "https://example.com" "https://a.s3.example.com" =
        true ∧
      registrableDomain hostingSuffixes "example.com" = some "example.com" ∧
      registrableDomain hostingSuffixes "a.s3.example.com" = some "a.s3.example.com" ∧
      ∀ item ∈ parseHost "https://example.com", ∀ page ∈ parseHost "https://a.s3.example.com",
        ¬ StaysOnSite hostingSuffixes item page) ∧
    (originMatches parseHost hostingSuffixes "https://localhost" "http://localhost" = true ∧
      ∀ item ∈ parseHost "https://localhost", ∀ page ∈ parseHost "http://localhost",
        ¬ StaysOnSite hostingSuffixes item page) := by
  have hitem : parseHost "https://example.com" = some ⟨"https:", "example.com", ""⟩ := by
    decide
  have hpage : parseHost "https://a.s3.example.com" = some ⟨"https:", "a.s3.example.com", ""⟩ := by
    decide
  have hlocal : parseHost "https://localhost" = some ⟨"https:", "localhost", ""⟩ := by
    decide
  have hloop : parseHost "http://localhost" = some ⟨"http:", "localhost", ""⟩ := by decide
  have hown : registrableDomain hostingSuffixes "a.s3.example.com" = some "a.s3.example.com" := by
    decide
  refine ⟨⟨by decide, by decide, hown, fun item hi page hp hstays => ?_⟩,
    by decide, fun item hi page hp hstays => ?_⟩
  · rw [hitem] at hi
    rw [hpage] at hp
    cases hi
    cases hp
    rcases hstays.host with heq | ⟨-, hsame⟩
    · exact absurd heq (by decide)
    · rw [hown] at hsame
      exact absurd hsame (by decide)
  · rw [hlocal] at hi
    rw [hloop] at hp
    cases hi
    cases hp
    exact absurd hstays.port (by decide)

end Nopass
