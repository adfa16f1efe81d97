import Nopass.Extension.UrlMatch

/-!
# Relying party identifiers that a page may use

A page may use the identifier of a registrable domain that its host is under. The rule of the
HTML standard looks at the host as well: an identifier may not lie above the host's own public
suffix, and addresses have no suffixes. The gate looks at the identifier alone.
-/

namespace Nopass

/-- `isLoopbackHost`. -/
def isLoopbackHost (host : String) : Bool :=
  decide (host = "localhost") || endsWith host ".localhost" || decide (host = "127.0.0.1") ||
    decide (host = "[::1]")

/-- `rpIdMatchesOrigin`. -/
def rpIdMatchesOrigin (parseUrl : String → Option Url) (rpId origin : String) : Bool :=
  match parseUrl origin with
  | none => false
  | some url =>
    if url.protocol ≠ "https:" ∧ ¬ (url.protocol = "http:" ∧ isLoopbackHost url.hostname = true)
    then false
    else if rpId.isEmpty || startsWith rpId "." || endsWith rpId "." then false
    else decide (url.hostname = rpId) || endsWith url.hostname ("." ++ rpId)

/-- `isRegistrableRpId`. -/
def isRegistrableRpId (psl : SuffixList) (rpId : String) : Bool :=
  if rpId = "localhost" then true else (registrableDomain psl rpId).isSome

/-- The gate before every use of a passkey. -/
def rpIdAllowed (parseUrl : String → Option Url) (psl : SuffixList) (rpId origin : String) : Bool :=
  !(!rpIdMatchesOrigin parseUrl rpId origin || !isRegistrableRpId psl rpId)

/-- A page in a secure context, or on a loopback host. -/
def SecureOrigin (url : Url) : Prop :=
  url.protocol = "https:" ∨ (url.protocol = "http:" ∧ isLoopbackHost url.hostname = true)

/-- The rule of the HTML standard: the host itself, or a name above it that is no public suffix
and not above the host's own public suffix. -/
def RegistrableSuffixOrEqual (psl : SuffixList) (rpId host : String) : Prop :=
  host = rpId ∨ (Domain.Under host.toList rpId.toList ∧ psl.listed rpId.toList = false ∧
    psl.isIp host.toList = false ∧ ∀ s ∈ psl.publicSuffix host.toList,
      s ≠ rpId.toList ∧ ¬ Domain.Under s rpId.toList)

/-- A secure page with the host of the identifier, or one that the rule allows it to. -/
def FollowsHtml (parseUrl : String → Option Url) (psl : SuffixList) (rpId origin : String) : Prop :=
  ∃ url, parseUrl origin = some url ∧ SecureOrigin url ∧
    RegistrableSuffixOrEqual psl rpId url.hostname

/-- A secure page whose host is under the identifier, a well-formed registrable name, is on no
address and under no listed suffix that lies below the identifier. -/
def NoSuffixBelow (parseUrl : String → Option Url) (psl : SuffixList) (rpId origin : String) :
    Prop :=
  ∀ url ∈ parseUrl origin, SecureOrigin url → (rpId.isEmpty = false ∧
    startsWith rpId "." = false ∧ endsWith rpId "." = false) → isRegistrableRpId psl rpId = true →
    url.hostname ≠ rpId → Domain.Under url.hostname.toList rpId.toList →
      NoSuffixBetween psl rpId url.hostname

variable {parseUrl : String → Option Url} {psl : SuffixList} {rpId origin : String}

/-- What the first check asks of the page. -/
theorem rpIdMatchesOrigin_iff : rpIdMatchesOrigin parseUrl rpId origin = true ↔
    ∃ url, parseUrl origin = some url ∧ SecureOrigin url ∧ (rpId.isEmpty = false ∧
      startsWith rpId "." = false ∧ endsWith rpId "." = false) ∧
      (url.hostname = rpId ∨ Domain.Under url.hostname.toList rpId.toList) := by
  unfold rpIdMatchesOrigin
  cases parseUrl origin with
  | none => simp
  | some url =>
    have hsecure : ¬ (url.protocol ≠ "https:" ∧
        ¬ (url.protocol = "http:" ∧ isLoopbackHost url.hostname = true)) ↔ SecureOrigin url := by
      unfold SecureOrigin
      tauto
    dsimp only
    by_cases hs : SecureOrigin url
    · have hdot : endsWith url.hostname ("." ++ rpId) = true ↔
          Domain.Under url.hostname.toList rpId.toList := endsWith_dot_iff
      rw [if_neg (hsecure.mpr hs)]
      simp [hs, ← hdot, and_assoc]
    · rw [if_pos (not_not.mp fun h => hs (hsecure.mp h))]
      simp [hs]

/-- An identifier other than the one for development is allowed when it is registrable. -/
theorem isRegistrableRpId_iff (h : rpId ≠ "localhost") :
    isRegistrableRpId psl rpId = true ↔ psl.domain rpId.toList ≠ none := by
  rw [isRegistrableRpId, if_neg h, registrableDomain, Option.isSome_map, Option.isSome_iff_ne_none]

/-- For identifiers other than `localhost`, the gate follows the HTML standard exactly when the
page's host is no address and under no listed suffix that lies below the identifier. -/
theorem followsHtml_iff (rpId origin : String) (hrp : rpId ≠ "localhost") :
    (rpIdAllowed parseUrl psl rpId origin = true → FollowsHtml parseUrl psl rpId origin) ↔
      NoSuffixBelow parseUrl psl rpId origin := by
  have hallowed : rpIdAllowed parseUrl psl rpId origin = true ↔
      rpIdMatchesOrigin parseUrl rpId origin = true ∧ isRegistrableRpId psl rpId = true := by
    simp [rpIdAllowed]
  rw [hallowed, rpIdMatchesOrigin_iff]
  constructor
  · intro h url hurl hsecure hformed hreg hne hunder
    obtain ⟨url', hurl', -, hfollow⟩ := h ⟨⟨url, hurl, hsecure, hformed, Or.inr hunder⟩, hreg⟩
    cases (Option.mem_def.mp hurl).symm.trans hurl'
    obtain ⟨-, -, hip, hsuffix⟩ := hfollow.resolve_left hne
    refine ⟨hip, fun s hs hlisted hbelow => ?_⟩
    obtain ⟨p, hp, hpbelow⟩ := SuffixList.publicSuffix_under_iff.mpr ⟨s, hs, hlisted, hbelow⟩
    exact (hsuffix p hp).2 hpbelow
  · rintro h ⟨⟨url, hurl, hsecure, hformed, hhost⟩, hreg⟩
    refine ⟨url, hurl, hsecure, ?_⟩
    by_cases heq : url.hostname = rpId
    · exact Or.inl heq
    · have hunder := hhost.resolve_left heq
      have hunlisted := SuffixList.listed_of_domain ((isRegistrableRpId_iff hrp).mp hreg)
      obtain ⟨hip, hnone⟩ := h url hurl hsecure hformed hreg heq hunder
      refine Or.inr ⟨hunder, hunlisted, hip, fun s hs => ⟨?_, fun hbelow => ?_⟩⟩
      · rintro rfl
        rw [List.find?_some hs] at hunlisted
        cases hunlisted
      · obtain ⟨p, hp, hlisted, hpbelow⟩ := SuffixList.publicSuffix_under_iff.mp ⟨s, hs, hbelow⟩
        exact hnone p hp hlisted hpbelow

/-- A hosting suffix below a registrable domain. -/
private def nestedSuffixes : SuffixList where
  listed s := decide (s = "com".toList) || decide (s = "s3.example.com".toList)
  isIp _ := false

/-- Pages by their host. -/
private def parseSecure (origin : String) : Option Url :=
  if startsWith origin "https://" then some ⟨"https:", String.ofList (origin.toList.drop 8), ""⟩
  else none

/-- A page under a registrable domain may use it. -/
theorem followsHtml_iff_under :
    (rpIdAllowed parseSecure nestedSuffixes "example.com" "https://a.example.com" = true →
      FollowsHtml parseSecure nestedSuffixes "example.com" "https://a.example.com") ↔
      NoSuffixBelow parseSecure nestedSuffixes "example.com" "https://a.example.com" :=
  followsHtml_iff "example.com" "https://a.example.com" (by decide)

/-- A page under a hosting suffix uses the identifier of the hoster, as all pages there may. -/
theorem not_followsHtml_of_nested :
    rpIdAllowed parseSecure nestedSuffixes "example.com" "https://a.s3.example.com" = true ∧
      nestedSuffixes.publicSuffix "a.s3.example.com".toList = some "s3.example.com".toList ∧
      ¬ FollowsHtml parseSecure nestedSuffixes "example.com" "https://a.s3.example.com" := by
  have hsuffix : nestedSuffixes.publicSuffix "a.s3.example.com".toList =
      some "s3.example.com".toList := by decide
  have hparse : parseSecure "https://a.s3.example.com" =
      some ⟨"https:", "a.s3.example.com", ""⟩ := by decide
  refine ⟨by decide, hsuffix, ?_⟩
  rintro ⟨url, hurl, -, hfollow⟩
  cases hparse.symm.trans hurl
  rcases hfollow with heq | ⟨-, -, -, hnone⟩
  · exact absurd heq (by decide)
  · exact (hnone _ hsuffix).2 (by decide)

end Nopass
