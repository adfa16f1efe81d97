import Nopass.Core.Text.Arithmetic
import Nopass.Core.Text.Base32

/-!
# Codes of authenticator apps

The secret of an `otpauth:` address is base32. The decoder keeps its bits in a signed value
of 32 bits that is never masked, skips what is no symbol, and drops the bits after the last
whole byte. A code is cut from an HMAC over the number of the time step, which the code
takes with SHA-1 whatever algorithm the address names.
-/

namespace Nopass

/-- One turn of the loop of `base32Decode`. The alphabet holds no half of a pair, so that code units
stand for characters here. -/
def base32Step (s : BitAccumulator × List UInt8) (char : UInt16) : BitAccumulator × List UInt8 :=
  match Base32.alphabet.findIdx? (· = char) with
  | none => s
  | some charIndex =>
    let acc := s.1.take 5 charIndex
    if 8 ≤ acc.pending then (acc.give 8, s.2 ++ [UInt8.ofNat (acc.top 8)]) else (acc, s.2)

/-- `base32Decode`; what is written past the end of a typed array is dropped. -/
def base32Decode (m : CaseMapping) (input : JsText) : List UInt8 :=
  let cleaned := ((m.toUpperCase input).rdropWhile (· = Base32.pad)).filter (!JsText.isSpace ·)
  let output := (cleaned.foldl base32Step (.empty, [])).2
  output.take (cleaned.length * 5 / 8)

/-- What the loop keeps: the bits of the symbols so far are those of the bytes so far and less than
a byte that is pending. -/
structure Base32Loop (s : BitAccumulator × List UInt8) (taken : List Nat) : Prop where
  regroups : Regroups 5 8 s.1 taken (s.2.map UInt8.toNat)
  pending_lt : s.1.pending < 8

/-- A symbol keeps it. -/
theorem Base32Loop.step {s : BitAccumulator × List UInt8} {taken : List Nat}
    (h : Base32Loop s taken) (char : UInt16) :
    Base32Loop (base32Step s char) (taken ++ (Base32.digit? char).toList) := by
  have hpending := h.pending_lt
  rw [base32Step, ← Base32.digit?]
  cases hdigit : Base32.digit? char with
  | none =>
    rw [Option.toList_none, List.append_nil]
    exact h
  | some digit =>
    have htake := h.regroups.take (Base32.digit?_lt hdigit) (by omega)
    simp only [Option.toList_some]
    split
    · rename_i hfull
      rw [BitAccumulator.pending_take] at hfull
      constructor
      · have hbyte :
            (UInt8.ofNat ((s.1.take 5 digit).top 8)).toNat = (s.1.take 5 digit).top 8 := by
          rw [UInt8.toNat_ofNat', Nat.mod_eq_of_lt BitAccumulator.top_lt]
        rw [List.map_append, List.map_singleton, hbyte]
        exact htake.give hfull
      · simp only [BitAccumulator.pending_give, BitAccumulator.pending_take]
        omega
    · rename_i hfull
      rw [BitAccumulator.pending_take] at hfull
      exact ⟨htake, by simp only [BitAccumulator.pending_take]; omega⟩

/-- So does the loop. -/
theorem Base32Loop.foldl {s : BitAccumulator × List UInt8} {taken : List Nat}
    (h : Base32Loop s taken) (text : JsText) :
    Base32Loop (text.foldl base32Step s) (taken ++ text.filterMap Base32.digit?) := by
  induction text generalizing s taken with
  | nil =>
    rw [List.filterMap_nil, List.append_nil]
    exact h
  | cons char text ih =>
    have hrest := ih (h.step char)
    rw [List.append_assoc] at hrest
    rw [List.foldl_cons, List.filterMap_cons]
    cases hdigit : Base32.digit? char with
    | none => simpa only [hdigit, Option.toList_none, List.nil_append] using hrest
    | some digit => simpa only [hdigit, Option.toList_some, List.singleton_append] using hrest

/-- The loop starts with nothing pending. -/
theorem base32Loop_start : Base32Loop (.empty, []) [] := ⟨Regroups.empty, by decide⟩

/-- Padding at the end shows no symbols. -/
theorem filterMap_digit?_rdropWhile (text : JsText) :
    (text.rdropWhile (· = Base32.pad)).filterMap Base32.digit? =
      text.filterMap Base32.digit? := by
  induction text using List.reverseRecOn with
  | nil => rfl
  | append_singleton text u ih =>
    by_cases hu : u = Base32.pad
    · have hpad := Base32.digit?_eq_none (Or.inr hu)
      rw [List.rdropWhile_concat_pos _ _ _ (by simpa using hu), ih, List.filterMap_append,
        List.filterMap_cons, hpad, List.filterMap_nil, List.append_nil]
    · rw [List.rdropWhile_concat_neg _ _ _ (by simpa using hu)]

/-- A spelling of the encoding of some bytes is decoded to these bytes. -/
theorem base32Decode_of_spells (m : SpacedCaseMapping) {text : JsText} {bytes : List UInt8}
    (h : Base32.Spells text bytes) : base32Decode m.toCaseMapping text = bytes := by
  have hupper := m.upper_spaced text (Base32.ascii_of_spells h)
  rw [base32Decode, hupper]
  generalize hcleaned : ((text.map JsText.upperAscii).rdropWhile (· = Base32.pad)).filter
    (!JsText.isSpace ·) = cleaned
  have hdigits : cleaned.filterMap Base32.digit? = Base32.digits bytes := by
    rw [← hcleaned, Base32.filterMap_digit?_filter, filterMap_digit?_rdropWhile,
      Base32.filterMap_digit?_of_spells h]
  have hloop := base32Loop_start.foldl cleaned
  rw [List.nil_append, hdigits] at hloop
  generalize cleaned.foldl base32Step (.empty, []) = s at hloop ⊢
  obtain ⟨zeros, hzeros, hbits⟩ := Base32.ofDigits_digits bytes
  -- Fewer than five zeros were added, so that no byte is missing and none is left over.
  have hcount := hloop.regroups.length_eq
  have hsymbols := congrArg List.length hbits
  rw [List.length_append, Bits.length_ofDigits, Bits.length_ofDigits, List.length_replicate,
    List.length_map] at hsymbols
  rw [List.length_map] at hcount
  have hpending := hloop.pending_lt
  have hlength : bytes.length = s.2.length := by omega
  have hgiven : s.2.map UInt8.toNat = bytes.map UInt8.toNat :=
    hloop.regroups.given_eq (fun d hd => by
      obtain ⟨b, _, rfl⟩ := List.mem_map.mp hd
      exact b.toNat_lt) (by rw [List.length_map, List.length_map, hlength]) hbits
  have houtput : s.2 = bytes := List.map_injective_iff.mpr (fun _ _ => UInt8.toNat_inj.mp) hgiven
  have hroom : s.2.length ≤ cleaned.length * 5 / 8 := by
    have hle : (cleaned.filterMap Base32.digit?).length ≤ cleaned.length :=
      List.length_filterMap_le _ _
    rw [hdigits] at hle
    omega
  rw [List.take_of_length_le hroom, houtput]

/-- The decoder inverts the encoding, in every spelling of it. -/
theorem base32Decode_inverts (m : SpacedCaseMapping) :
    (∀ bytes, Base32.Spells (Base32.encode bytes) bytes) ∧
      ∀ text bytes, Base32.Spells text bytes → base32Decode m.toCaseMapping text = bytes := by
  constructor
  · exact Base32.spells_encode
  · intro text bytes h
    exact base32Decode_of_spells m h

/-- For example with a small letter, a line break, a no-break space and half of the padding. -/
theorem base32Decode_inverts_spelled :
    base32Decode CaseMapping.ascii (js "mZx\n\u00a0W6===") = [0x66, 0x6f, 0x6f] := by
  have hpads : ∀ u ∈ List.replicate 3 Base32.pad, u = Base32.pad := fun u =>
    List.eq_of_mem_replicate
  exact (base32Decode_inverts SpacedCaseMapping.ascii).2 _ _
    ⟨js "mZxW6", List.replicate 3 Base32.pad, by decide, by decide, hpads⟩

/-- An address as `URL` shows it. -/
structure OtpUrl where
  protocol : JsText
  searchParams : List (JsText × JsText)

/-- `searchParams.get`. -/
def OtpUrl.get (url : OtpUrl) (name : JsText) : Option JsText := url.searchParams.lookup name

/-- The algorithms that an address may name. -/
inductive OtpAlgorithm where
  | sha1
  | sha256
  | sha512
  deriving DecidableEq

/-- The bytes of a digest. -/
def OtpAlgorithm.size : OtpAlgorithm → Nat
  | .sha1 => 20
  | .sha256 => 32
  | .sha512 => 64

/-- What the browser does. -/
structure OtpPlatform where
  /-- `new URL`, none when it throws. -/
  url : JsText → Option OtpUrl
  /-- HMAC: algorithm, key, data. -/
  hmac : OtpAlgorithm → List UInt8 → List UInt8 → List UInt8
  length_hmac : ∀ algorithm key data, (hmac algorithm key data).length = algorithm.size
  case : SpacedCaseMapping
  /-- `toString` of a number that is written with a fraction or an exponent. -/
  otherText : Rat → JsText
  /-- The length of the longest text. -/
  longest : Nat
  longest_ge : 2 ^ 20 ≤ longest

/-- `hmacSha1`; an empty key cannot be imported. -/
def hmacSha1 (p : OtpPlatform) (key data : List UInt8) : Option (List UInt8) :=
  if key.isEmpty then none else some (p.hmac .sha1 key data)

/-- The loop of `counterToBytes`, from the last byte. -/
def counterBytes : Nat → JsNumber → List UInt8
  | 0, _ => []
  | width + 1, remaining =>
    counterBytes width (remaining.div 256).floor ++ [UInt8.ofNat (remaining.toUint32 &&& 0xff)]

/-- `counterToBytes`. -/
def counterToBytes (counter : JsNumber) : List UInt8 := counterBytes 8 counter

/-- `TotpResult`. -/
structure TotpResult where
  code : JsText
  remainingSeconds : JsNumber
  period : JsNumber
  deriving DecidableEq

/-- The bits of `code`, below `2 ^ 31`; a byte that is not there counts as zero. -/
def truncatedBits (mac : List UInt8) : Nat :=
  let offset := (mac.getLast?.getD 0).toNat &&& 0x0f
  let byte := fun i => (mac.getD (offset + i) 0).toNat
  (byte 0 &&& 0x7f) <<< 24 ||| (byte 1 &&& 0xff) <<< 16 ||| (byte 2 &&& 0xff) <<< 8 |||
    (byte 3 &&& 0xff)

/-- `computeTotp`, when `Date.now()` gives `dateNow`. -/
def computeTotp (p : OtpPlatform) (uri : JsText) (dateNow : JsNumber) : Option TotpResult := do
  let url ← p.url uri
  guard (url.protocol = js "otpauth:")
  let secret ← (url.get (js "secret")).filter fun secret => !secret.isEmpty
  let period := JsNumber.parseInt ((url.get (js "period")).getD (js "30"))
  let digits := JsNumber.parseInt ((url.get (js "digits")).getD (js "6"))
  let now := (dateNow.div 1000).floor
  let counter := (now.div period).floor
  let remainingSeconds := period.sub (now.rem period)
  let key := base32Decode p.case.toCaseMapping secret
  let mac ← hmacSha1 p key (counterToBytes counter)
  let code := (JsNumber.ofNat (truncatedBits mac)).rem digits.pow10
  let text ← JsNumber.padZeros p.longest digits (code.toText p.otherText)
  some { code := text, remainingSeconds := remainingSeconds, period := period }

/-- Dynamic truncation: 31 bits of the four bytes at the offset that the last byte names. -/
def dynamicTruncation (mac : List UInt8) : Nat :=
  ofBigEndian ((mac.drop ((mac.getLast?.getD 0).toNat % 16)).take 4) % 2 ^ 31

/-- The code of a time: the truncated HMAC over the eight bytes of the number of its step. -/
def totpCode (hmac : List UInt8 → List UInt8 → List UInt8) (key : List UInt8)
    (period digits now : Nat) : JsText :=
  JsNumber.fixedDigits digits (dynamicTruncation (hmac key (bigEndian 8 (now / period))))

/-- A parameter of an address that is a number, with its default. -/
def HasNumber (url : OtpUrl) (name : JsText) (default n : Nat) : Prop :=
  match url.get name with
  | none => n = default
  | some text => JsNumber.IsNumeral text n

/-- An address of an authenticator app. -/
structure Otpauth (url : OtpUrl) (key : List UInt8) (period digits : Nat) : Prop where
  protocol : url.protocol = js "otpauth:"
  secret : ∃ text, url.get (js "secret") = some text ∧ Base32.Spells text key
  key_ne : key ≠ []
  hasPeriod : HasNumber url (js "period") 30 period
  hasDigits : HasNumber url (js "digits") 6 digits
  period_pos : 1 ≤ period
  digits_range : 6 ≤ digits ∧ digits ≤ 8

/-- The algorithm that an address names. -/
def NamesAlgorithm (url : OtpUrl) (algorithm : OtpAlgorithm) : Prop :=
  match url.get (js "algorithm") with
  | none => algorithm = .sha1
  | some text => text = js (match algorithm with
    | .sha1 => "SHA1"
    | .sha256 => "SHA256"
    | .sha512 => "SHA512")

/-- The clock shows a second. -/
def ClockShows (dateNow : JsNumber) (now : Nat) : Prop := (dateNow.div 1000).floor = .ofNat now

/-- The seconds that are left of a step. -/
def timeLeft (period now : Nat) : Nat := period - now % period

/-- The bytes of a counter, most significant first. -/
theorem counterBytes_ofNat (width : Nat) {n : Nat} (h : n < 2 ^ 53) :
    counterBytes width (.ofNat n) = bigEndian width n := by
  induction width generalizing n with
  | zero => rfl
  | succ width ih =>
    have hdiv : (JsNumber.div (.ofNat n) 256).floor = .ofNat (n / 256) :=
      JsNumber.floor_div_ofNat h (by decide)
        (Nat.pow_lt_pow_right (a := 2) (by decide) (by decide : 8 < 1024))
    have hlow : JsNumber.toUint32 (.ofNat n) &&& 0xff = n % 256 := by
      rw [JsNumber.toUint32_ofNat, Nat.and_two_pow_sub_one_eq_mod _ 8]
      omega
    rw [counterBytes, hdiv, ih (Nat.lt_of_le_of_lt (Nat.div_le_self n 256) h), hlow, bigEndian]

/-- Four bytes without the top bit. -/
theorem shifted_bytes (a b c d : UInt8) :
    (a.toNat &&& 0x7f) <<< 24 ||| b.toNat <<< 16 ||| c.toNat <<< 8 ||| d.toNat =
      ofBigEndian [a, b, c, d] % 2 ^ 31 := by
  have ha := a.toNat_lt
  have hb := b.toNat_lt
  have hc := c.toNat_lt
  have hd := d.toNat_lt
  have htop : a.toNat &&& 0x7f = a.toNat % 128 := Nat.and_two_pow_sub_one_eq_mod a.toNat 7
  have h₁ : (a.toNat % 128) <<< 24 ||| b.toNat <<< 16 = (a.toNat % 128 * 256 + b.toNat) <<< 16 := by
    rw [← Nat.shiftLeft_add_eq_or_of_lt (by rw [Nat.shiftLeft_eq]; omega)]
    simp only [Nat.shiftLeft_eq]
    omega
  have h₂ : (a.toNat % 128 * 256 + b.toNat) <<< 16 ||| c.toNat <<< 8 =
      ((a.toNat % 128 * 256 + b.toNat) * 256 + c.toNat) <<< 8 := by
    rw [← Nat.shiftLeft_add_eq_or_of_lt (by rw [Nat.shiftLeft_eq]; omega)]
    simp only [Nat.shiftLeft_eq]
    omega
  rw [htop, h₁, h₂, ← Nat.shiftLeft_add_eq_or_of_lt (by omega), Nat.shiftLeft_eq]
  simp only [ofBigEndian, List.foldl_cons, List.foldl_nil]
  omega

/-- The bits of the code are the dynamic truncation. -/
theorem truncatedBits_eq {mac : List UInt8} (h : mac.length = 20) :
    truncatedBits mac = dynamicTruncation mac := by
  have hoffset : ∀ b : UInt8, b.toNat &&& 0x0f = b.toNat % 16 := fun b =>
    Nat.and_two_pow_sub_one_eq_mod b.toNat 4
  have hmask : ∀ b : UInt8, b.toNat &&& 0xff = b.toNat := by
    intro b
    rw [Nat.and_two_pow_sub_one_eq_mod b.toNat 8, Nat.mod_eq_of_lt b.toNat_lt]
  rw [truncatedBits, dynamicTruncation, hoffset]
  have hfit : (mac.getLast?.getD 0).toNat % 16 + 4 ≤ mac.length := by omega
  generalize (mac.getLast?.getD 0).toNat % 16 = offset at hfit
  obtain ⟨a, b, c, d, rest, hdrop⟩ :
      ∃ a b c d rest, mac.drop offset = a :: b :: c :: d :: rest := by
    have hlength : 4 ≤ (mac.drop offset).length := by
      rw [List.length_drop]
      omega
    match mac.drop offset, hlength with
    | a :: b :: c :: d :: rest, _ => exact ⟨a, b, c, d, rest, rfl⟩
  have hbyte : ∀ i, mac.getD (offset + i) 0 = (mac.drop offset).getD i 0 := by
    intro i
    rw [List.getD_eq_getElem?_getD, List.getD_eq_getElem?_getD, List.getElem?_drop]
  simp only [hbyte, hdrop, hmask]
  exact shifted_bytes a b c d

/-- A number among the parameters is read as it is, rounded to a double. -/
theorem parseInt_of_hasNumber {url : OtpUrl} {name : JsText} {default n : Nat} {text : JsText}
    (h : HasNumber url name default n) (hdefault : JsNumber.IsNumeral text default) :
    JsNumber.parseInt ((url.get name).getD text) = JsNumber.ofRat n := by
  rw [HasNumber] at h
  cases hget : url.get name with
  | none =>
    rw [hget] at h
    rw [Option.getD_none, JsNumber.parseInt_of_isNumeral hdefault, h]
  | some value =>
    rw [hget] at h
    rw [Option.getD_some, JsNumber.parseInt_of_isNumeral h]

/-- The step of a time, also when the period is rounded. -/
theorem step_eq {period now : Nat} (hpos : 1 ≤ period) (hnow : now < 2 ^ 53) :
    ((JsNumber.ofNat now).div (.ofRat period)).floor = .ofNat (now / period) := by
  by_cases hsmall : period ≤ 2 ^ 53
  · have hlarge : 2 ^ 53 < 2 ^ 1024 := Nat.pow_lt_pow_right (by decide) (by decide)
    rw [JsNumber.ofRat_natCast hsmall]
    exact JsNumber.floor_div_ofNat hnow hpos (Nat.lt_of_le_of_lt hsmall hlarge)
  · have hzero : now / period = 0 := Nat.div_eq_of_lt (by omega)
    rw [hzero]
    rcases JsNumber.ofRat_large (Nat.lt_of_not_le hsmall) with hperiod | ⟨b, hb, hb', hperiod⟩
    · rw [hperiod]
      rfl
    · rw [hperiod, JsNumber.floor_div_ofNat hnow (by omega) hb', Nat.div_eq_of_lt (by omega)]

/-- What is left of a step, for a period that a double holds. -/
theorem remaining_eq {period now : Nat} (hpos : 1 ≤ period) (hperiod : period ≤ 2 ^ 53) :
    (JsNumber.ofNat period).sub ((JsNumber.ofNat now).rem (.ofNat period)) =
      .ofNat (timeLeft period now) := by
  rw [JsNumber.rem_ofNat now hpos,
    JsNumber.sub_ofNat (Nat.le_of_lt (Nat.mod_lt now hpos)) hperiod]
  rfl

/-- A code of as many digits as were asked for. -/
theorem text_eq (p : OtpPlatform) {bits digits : Nat} (hdigits : 6 ≤ digits ∧ digits ≤ 8) :
    JsNumber.padZeros p.longest (.ofRat digits)
        (((JsNumber.ofNat bits).rem (JsNumber.ofRat digits).pow10).toText p.otherText) =
      some (JsNumber.fixedDigits digits bits) := by
  have hpow : (JsNumber.ofRat digits).pow10 = .ofNat (10 ^ digits) := by
    have hcases : digits = 6 ∨ digits = 7 ∨ digits = 8 := by omega
    rcases hcases with rfl | rfl | rfl <;> decide +kernel
  have hpos : 0 < 10 ^ digits := Nat.pow_pos (by decide)
  have hfits : bits % 10 ^ digits < 10 ^ digits := Nat.mod_lt _ hpos
  have hshort : 10 ^ digits ≤ 10 ^ 8 := Nat.pow_le_pow_right (by decide) hdigits.2
  have hlongest := p.longest_ge
  obtain ⟨hlength, hpadded⟩ := JsNumber.replicate_append_decimal (by omega) hfits
  rw [hpow, JsNumber.rem_ofNat bits hpos, JsNumber.toText_ofNat p.otherText (by omega),
    JsNumber.ofRat_natCast (by omega), JsNumber.padZeros, JsNumber.toLength_ofNat,
    Nat.min_eq_left (by omega), ← JsNumber.fixedDigits_mod, ← hpadded]
  split
  · rename_i hfull
    rw [Nat.sub_eq_zero_of_le hfull, List.replicate_zero, List.nil_append]
  · rw [if_neg (by omega)]

/-- The code of a result. -/
def HasCode (hmac : List UInt8 → List UInt8 → List UInt8) (key : List UInt8)
    (period digits now : Nat) (result : TotpResult) : Prop :=
  result.code = totpCode hmac key period digits now

/-- The time of a result. -/
def HasTime (period now : Nat) (result : TotpResult) : Prop :=
  result.period = .ofNat period ∧ result.remainingSeconds = .ofNat (timeLeft period now) ∧
    1 ≤ timeLeft period now ∧ timeLeft period now ≤ period

/-- What the code comes to for an address of an authenticator app. -/
theorem computeTotp_ok (p : OtpPlatform) {uri : JsText} {url : OtpUrl} {key : List UInt8}
    {period digits now : Nat} {dateNow : JsNumber} (hurl : p.url uri = some url)
    (h : Otpauth url key period digits) (hclock : ClockShows dateNow now) (hnow : now < 2 ^ 53) :
    ∃ result, computeTotp p uri dateNow = some result ∧
      HasCode (p.hmac .sha1) key period digits now result ∧
      (period ≤ 2 ^ 53 → HasTime period now result) := by
  obtain ⟨secret, hsecret, hspells⟩ := h.secret
  have hne : secret ≠ [] := by
    rintro rfl
    have hempty := base32Decode_of_spells SpacedCaseMapping.ascii hspells
    exact h.key_ne (hempty.symm.trans (by decide))
  have hsome : (url.get (js "secret")).filter (fun secret => !secret.isEmpty) = some secret := by
    rw [hsecret, Option.filter_some, if_pos]
    simpa using hne
  have hperiod := parseInt_of_hasNumber h.hasPeriod
    (⟨by decide, by decide, by decide⟩ : JsNumber.IsNumeral (js "30") 30)
  have hdigits := parseInt_of_hasNumber h.hasDigits
    (⟨by decide, by decide, by decide⟩ : JsNumber.IsNumeral (js "6") 6)
  have hcounter : counterToBytes (.ofNat (now / period)) = bigEndian 8 (now / period) :=
    counterBytes_ofNat 8 (Nat.lt_of_le_of_lt (Nat.div_le_self now period) hnow)
  have hmac : hmacSha1 p key (bigEndian 8 (now / period)) =
      some (p.hmac .sha1 key (bigEndian 8 (now / period))) := by
    rw [hmacSha1, if_neg]
    simpa using h.key_ne
  have htext := @text_eq p (dynamicTruncation (p.hmac .sha1 key (bigEndian 8 (now / period))))
    digits h.digits_range
  rw [ClockShows] at hclock
  let result : TotpResult := {
    code := totpCode (p.hmac .sha1) key period digits now
    remainingSeconds :=
      (JsNumber.ofRat period).sub ((JsNumber.ofNat now).rem (JsNumber.ofRat period))
    period := JsNumber.ofRat period }
  have hrun : computeTotp p uri dateNow = some result := by
    simp only [computeTotp, hurl, hsome, h.protocol, hperiod, hdigits, hclock,
      step_eq h.period_pos hnow, base32Decode_of_spells p.case hspells, hcounter, hmac,
      truncatedBits_eq (p.length_hmac .sha1 _ _), htext, guard, if_true, Option.bind_eq_bind,
      Option.bind_some]
    rfl
  have htime : period ≤ 2 ^ 53 → HasTime period now result := by
    intro hsmall
    have hrounded : JsNumber.ofRat (period : Rat) = .ofNat period := JsNumber.ofRat_natCast hsmall
    have hleft := Nat.mod_lt now h.period_pos
    constructor
    · exact hrounded
    · constructor
      · simp only [result, hrounded]
        exact remaining_eq h.period_pos hsmall
      · rw [timeLeft]
        omega
  exact ⟨result, hrun, rfl, htime⟩

/-- A clock that counts milliseconds shows their seconds. -/
theorem clockShows_ofNat {ms : Nat} (h : ms < 2 ^ 53) : ClockShows (.ofNat ms) (ms / 1000) :=
  JsNumber.floor_div_ofNat h (by decide)
    (Nat.lt_of_lt_of_le (by decide : 1000 < 2 ^ 10)
      (Nat.pow_le_pow_right (by decide) (by decide : 10 ≤ 1024)))

/-- The code of an address is that of the standard for SHA-1, and the time is what is left of the
step. -/
theorem computeTotp_standard (p : OtpPlatform) :
    (∀ ms, ms < 2 ^ 53 → ClockShows (.ofNat ms) (ms / 1000)) ∧
      ∀ uri url key period digits dateNow now, p.url uri = some url →
        Otpauth url key period digits → ClockShows dateNow now → now < 2 ^ 53 →
          ∃ result, computeTotp p uri dateNow = some result ∧
            HasCode (p.hmac .sha1) key period digits now result ∧
            (period ≤ 2 ^ 53 → HasTime period now result) := by
  constructor
  · intro ms h
    exact clockShows_ofNat h
  · intro uri url key period digits dateNow now hurl h hclock hnow
    exact computeTotp_ok p hurl h hclock hnow

/-- Digests of the number of the first step under the key of the standard's examples; the last is
not looked at. -/
def OtpAlgorithm.example : OtpAlgorithm → List UInt8
  | .sha1 => [
    0x75, 0xa4, 0x8a, 0x19, 0xd4, 0xcb, 0xe1, 0x00, 0x64, 0x4e, 0x8a, 0xc1, 0x39, 0x7e, 0xea, 0x74,
    0x7a, 0x2d, 0x33, 0xab]
  | .sha256 => [
    0xec, 0x9d, 0x4f, 0x68, 0x7b, 0x4e, 0xfe, 0x6a, 0xcc, 0x52, 0x10, 0x06, 0x72, 0x66, 0x0b, 0x84,
    0xc0, 0xe7, 0x21, 0x0b, 0xa0, 0x38, 0x21, 0x41, 0xf8, 0xec, 0xb9, 0x07, 0x96, 0xca, 0xb9, 0x12]
  | .sha512 => List.replicate 64 0

/-- A browser that shows one address. -/
def OtpPlatform.showing (shown : OtpUrl) : OtpPlatform where
  url := fun _ => some shown
  hmac := fun algorithm _ _ => algorithm.example
  length_hmac := by
    intro algorithm key data
    cases algorithm <;> rfl
  case := .ascii
  otherText := fun _ => []
  longest := 2 ^ 20
  longest_ge := Nat.le_refl _

/-- The key of the standard's examples. -/
def exampleKey : List UInt8 := (js "12345678901234567890").map UInt16.toUInt8

/-- An address with this key and further parameters. -/
def OtpUrl.example (rest : List (JsText × JsText)) : OtpUrl where
  protocol := js "otpauth:"
  searchParams := (js "secret", js "GEZDGNBVGY3TQOJQGEZDGNBVGY3TQOJQ") :: rest

/-- Such an address is one of an authenticator app. -/
theorem otpauth_example {rest : List (JsText × JsText)} {period digits : Nat}
    (hasPeriod : HasNumber (.example rest) (js "period") 30 period)
    (hasDigits : HasNumber (.example rest) (js "digits") 6 digits) (period_pos : 1 ≤ period)
    (digits_range : 6 ≤ digits ∧ digits ≤ 8) :
    Otpauth (.example rest) exampleKey period digits where
  protocol := rfl
  secret := by
    let text := js "GEZDGNBVGY3TQOJQGEZDGNBVGY3TQOJQ"
    have hspaced : text.filter (fun u => !JsText.isSpace u) = text ++ [] := by decide
    have hsymbols : text.map JsText.upperAscii = Base32.symbols exampleKey := by decide +kernel
    exact ⟨text, rfl, text, [], hspaced, hsymbols, nofun⟩
  key_ne := by decide
  hasPeriod := hasPeriod
  hasDigits := hasDigits
  period_pos := period_pos
  digits_range := digits_range

/-- The eight digits that the standard lists for the 59th second. -/
theorem computeTotp_standard_listed :
    ∃ result, computeTotp (.showing (.example [(js "digits", js "8")])) [] (.ofNat 59000) =
      some result ∧ result.code = js "94287082" ∧ result.remainingSeconds = .ofNat 1 := by
  have hclock := (computeTotp_standard (.showing (.example [(js "digits", js "8")]))).1 59000
    (by decide)
  have hdigits : HasNumber (.example [(js "digits", js "8")]) (js "digits") 6 8 :=
    ⟨by decide, by decide, by decide⟩
  obtain ⟨result, hrun, hcode, htime⟩ :=
    (computeTotp_standard (.showing (.example [(js "digits", js "8")]))).2 []
      (.example [(js "digits", js "8")]) exampleKey 30 8 (.ofNat 59000) 59 rfl
      (otpauth_example rfl hdigits (by decide) (by decide)) hclock (by decide)
  have hlisted : totpCode (OtpPlatform.hmac (.showing (.example [(js "digits", js "8")])) .sha1)
      exampleKey 30 8 59 = js "94287082" := by decide
  exact ⟨result, hrun, hcode.trans hlisted, (htime (by decide)).2.1⟩

/-- The algorithm of an address is not looked at, and a period that a double does not hold leaves a
time that is rounded. -/
theorem computeTotp_not_standard :
    ¬ (∀ (p : OtpPlatform) uri url key period digits algorithm dateNow now, p.url uri = some url →
      Otpauth url key period digits → NamesAlgorithm url algorithm → ClockShows dateNow now →
        now < 2 ^ 53 → ∃ result, computeTotp p uri dateNow = some result ∧
          HasCode (p.hmac algorithm) key period digits now result) ∧
    ¬ (∀ (p : OtpPlatform) uri url key period digits algorithm dateNow now, p.url uri = some url →
      Otpauth url key period digits → NamesAlgorithm url algorithm → ClockShows dateNow now →
        now < 2 ^ 53 → ∃ result, computeTotp p uri dateNow = some result ∧
          result.remainingSeconds = .ofNat (timeLeft period now)) := by
  have hclock : ClockShows (.ofNat 1000) 1 := clockShows_ofNat (by decide)
  constructor
  · intro hcode
    have hsha256 := @otpauth_example [(js "algorithm", js "SHA256")] 30 6 rfl rfl (by decide)
      (by decide)
    obtain ⟨result, hrun, hcode⟩ := hcode (.showing (.example [(js "algorithm", js "SHA256")])) []
      _ _ _ _ .sha256 _ _ rfl hsha256 rfl hclock (by decide)
    have hsame : (computeTotp (.showing (.example [(js "algorithm", js "SHA256")])) []
        (.ofNat 1000)).map TotpResult.code ≠ some (totpCode (OtpPlatform.hmac
          (.showing (.example [(js "algorithm", js "SHA256")])) .sha256) exampleKey 30 6 1) := by
      decide +kernel
    rw [hrun, Option.map_some, hcode] at hsame
    exact hsame rfl
  · intro htime
    have hnumber : HasNumber (.example [(js "period", js "9007199254740994")]) (js "period") 30
        9007199254740994 := ⟨by decide, by decide, by decide⟩
    have hperiod := otpauth_example hnumber rfl (by decide) (by decide)
    obtain ⟨result, hrun, hleft⟩ := htime
      (.showing (.example [(js "period", js "9007199254740994")])) [] _ _ _ _ .sha1 _ _ rfl hperiod
      rfl hclock (by decide)
    have hsame : (computeTotp (.showing (.example [(js "period", js "9007199254740994")])) []
        (.ofNat 1000)).map TotpResult.remainingSeconds ≠
          some (.ofNat (timeLeft 9007199254740994 1)) := by
      decide +kernel
    rw [hrun, Option.map_some, hleft] at hsame
    exact hsame rfl

end Nopass
