import Mathlib.Algebra.Group.Int.Defs
import Nopass.Core.Text.Bytes

/-!
# Signed webhooks

A webhook of the payment provider names the time at which it was signed and carries one or
more signatures over that time and the payload. The server accepts times within five
minutes of its own. The distance is computed in 64 bits, where a time that is far enough in
the past comes out as near.
-/

namespace Nopass

/-- Why a webhook is not accepted. -/
inductive WebhookError where
  | invalidTimestamp
  | missingTimestamp
  /-- The arithmetic panics. -/
  | overflow
  | outsideTolerance
  | verificationFailed
  | invalidEvent
  deriving DecidableEq, Repr

/-- How the server is built: with or without checks for overflow. -/
inductive Build where
  | debug
  | release
  deriving DecidableEq, Repr

/-- A signed integer of 64 bits. -/
def FitsInt64 (n : Int) : Prop := -2 ^ 63 ≤ n ∧ n < 2 ^ 63

instance (n : Int) : Decidable (FitsInt64 n) := inferInstanceAs (Decidable (_ ∧ _))

/-- What an operation of such integers gives, none when it panics. -/
def Build.int64 (build : Build) (exact : Int) : Option Int :=
  if FitsInt64 exact then some exact
  else match build with
    | .debug => none
    | .release => some (exact.bmod (2 ^ 64))

/-- `(now - timestamp).abs()`. -/
def Build.distance (build : Build) (now timestamp : Int) : Option Int :=
  (build.int64 (now - timestamp)).bind fun difference => build.int64 difference.natAbs

/-- The number that digits stand for. -/
def decimalValue (digits : List Char) : Nat :=
  digits.foldl (fun n digit => n * 10 + (digit.toNat - '0'.toNat)) 0

/-- `str::parse::<i64>`: a sign may come before the digits. -/
def parseInt64 (text : List Char) : Option Int :=
  let (negative, digits) := match text with
    | '-' :: digits => (true, digits)
    | '+' :: digits => (false, digits)
    | digits => (false, digits)
  let value : Int := if negative then -decimalValue digits else decimalValue digits
  if !digits.isEmpty && digits.all Char.isDigit && decide (FitsInt64 value) then some value
  else none

/-- One turn of the loop over the parts of a header. -/
def readPart (s : Option Int × List (List Char)) :
    List Char → Except WebhookError (Option Int × List (List Char))
  | 't' :: '=' :: t =>
    match parseInt64 t with
    | none => .error .invalidTimestamp
    | some timestamp => .ok (some timestamp, s.2)
  | 'v' :: '1' :: '=' :: v => .ok (s.1, s.2 ++ [v])
  | _ => .ok s

/-- The parts of a header. -/
def headerParts (signatureHeader : String) : List (List Char) := signatureHeader.toList.splitOn ','

/-- The last timestamp and the signatures of a header. -/
def readHeader (signatureHeader : String) : Except WebhookError (Option Int × List (List Char)) :=
  (headerParts signatureHeader).foldlM readPart (none, [])

/-- `constant_time_eq`. -/
def constantTimeEq (a b : List Char) : Bool :=
  let as := utf8 (String.ofList a)
  let bs := utf8 (String.ofList b)
  if as.length ≠ bs.length then false
  else (as.zip bs).foldl (fun acc p => acc ||| (p.1 ^^^ p.2)) 0 == 0

/-- `hex::encode`. -/
def hexEncode (bytes : List UInt8) : List Char :=
  bytes.flatMap fun b => [Nat.digitChar (b.toNat / 16), Nat.digitChar (b.toNat % 16)]

/-- What is signed: the timestamp, a dot and the payload. -/
def signedPayload (timestamp : Int) (payload : List UInt8) : List UInt8 :=
  utf8 (toString timestamp) ++ 0x2e :: payload

/-- `construct_event`. HMAC takes a key of any length. -/
def constructEvent {E : Type} (hmac : List UInt8 → List UInt8 → List UInt8)
    (parse : List UInt8 → Option E) (build : Build) (webhookSecret : String) (now : Int)
    (payload : List UInt8) (signatureHeader : String) : Except WebhookError E := do
  let (timestamp, signatures) ← readHeader signatureHeader
  let some timestamp := timestamp | throw .missingTimestamp
  let some distance := build.distance now timestamp | throw .overflow
  if 300 < distance then throw .outsideTolerance
  let expected := hexEncode (hmac (utf8 webhookSecret) (signedPayload timestamp payload))
  if !signatures.any (constantTimeEq · expected) then throw .verificationFailed
  let some event := parse payload | throw .invalidEvent
  return event

/-- The checks are passed; the event may still not be readable. -/
def PassesChecks {E : Type} : Except WebhookError E → Prop
  | .ok _ => True
  | .error error => error = .invalidEvent

/-- The last timestamp of a header. -/
def LastTimestamp (signatureHeader : String) (timestamp : Int) : Prop :=
  ∃ before value after, headerParts signatureHeader = before ++ ('t' :: '=' :: value) :: after ∧
    (∀ part ∈ after, ¬ ['t', '='] <+: part) ∧ parseInt64 value = some timestamp

/-- A header that the provider signed, not long ago. -/
def Authentic (hmac : List UInt8 → List UInt8 → List UInt8) (webhookSecret : String) (now : Int)
    (payload : List UInt8) (signatureHeader : String) : Prop :=
  ∃ timestamp, LastTimestamp signatureHeader timestamp ∧ (now - timestamp).natAbs ≤ 300 ∧
    'v' :: '1' :: '=' :: hexEncode (hmac (utf8 webhookSecret) (signedPayload timestamp payload)) ∈
      headerParts signatureHeader

/-- The timestamp that the arithmetic is about. -/
def ReadsTimestamp (signatureHeader : String) (timestamp : Int) : Prop :=
  ∃ signatures, readHeader signatureHeader = .ok (some timestamp, signatures)

/-- Webhook authentication is sound for a header. -/
structure WebhookSound {E : Type} (hmac : List UInt8 → List UInt8 → List UInt8)
    (parse : List UInt8 → Option E) (build : Build) (webhookSecret : String) (now : Int)
    (payload : List UInt8) (signatureHeader : String) : Prop where
  authentic :
    PassesChecks (constructEvent hmac parse build webhookSecret now payload signatureHeader) →
      Authentic hmac webhookSecret now payload signatureHeader
  exact : ∀ timestamp, ReadsTimestamp signatureHeader timestamp →
    build.distance now timestamp = some ((now - timestamp).natAbs : Int)

/-! ## Reading the header -/

/-- What the loop has read of the parts so far. -/
structure PartsRead (parts : List (List Char)) (s : Option Int × List (List Char)) : Prop where
  timestamp : ∀ t ∈ s.1, ∃ before value after, parts = before ++ ('t' :: '=' :: value) :: after ∧
    (∀ part ∈ after, ¬ ['t', '='] <+: part) ∧ parseInt64 value = some t
  signatures : ∀ v ∈ s.2, 'v' :: '1' :: '=' :: v ∈ parts

/-- A part keeps it. -/
theorem PartsRead.concat {parts : List (List Char)} {s s' : Option Int × List (List Char)}
    {part : List Char} (h : PartsRead parts s) (hpart : readPart s part = .ok s') :
    PartsRead (parts ++ [part]) s' := by
  have hother : ¬ ['t', '='] <+: part → ∀ t ∈ s.1, ∃ before value after,
      parts ++ [part] = before ++ ('t' :: '=' :: value) :: after ∧
        (∀ part ∈ after, ¬ ['t', '='] <+: part) ∧ parseInt64 value = some t := by
    intro hnot t ht
    obtain ⟨before, value, after, hparts, hafter, hvalue⟩ := h.timestamp t ht
    refine ⟨before, value, after ++ [part], ?_, ?_, hvalue⟩
    · rw [hparts, List.append_assoc, List.cons_append]
    · intro part' hpart'
      rcases List.mem_append.mp hpart' with hbefore | hlast
      · exact hafter part' hbefore
      · rw [List.mem_singleton.mp hlast]
        exact hnot
  have hkept : ∀ v ∈ s.2, 'v' :: '1' :: '=' :: v ∈ parts ++ [part] := fun v hv =>
    List.mem_append_left _ (h.signatures v hv)
  rw [readPart.eq_def] at hpart
  split at hpart
  · rename_i value
    split at hpart
    · cases hpart
    · rename_i t hvalue
      obtain rfl := Except.ok.inj hpart
      constructor
      · intro t' ht'
        obtain rfl := Option.some.inj ht'
        exact ⟨parts, value, [], rfl, nofun, hvalue⟩
      · exact hkept
  · rename_i v
    obtain rfl := Except.ok.inj hpart
    constructor
    · exact hother (by simp [List.cons_prefix_cons])
    · intro v' hv'
      rcases List.mem_append.mp hv' with hbefore | hlast
      · exact hkept v' hbefore
      · rw [List.mem_singleton.mp hlast]
        exact List.mem_concat_self
  · rename_i hnotTime _
    obtain rfl := Except.ok.inj hpart
    constructor
    · refine hother ?_
      rintro ⟨value, rfl⟩
      exact hnotTime value rfl
    · exact hkept

/-- So does the loop. -/
theorem partsRead_of_foldlM {parts : List (List Char)} {s : Option Int × List (List Char)}
    (h : parts.foldlM readPart (none, []) = .ok s) : PartsRead parts s := by
  induction parts using List.reverseRecOn generalizing s with
  | nil =>
    obtain rfl := Except.ok.inj h
    exact ⟨nofun, nofun⟩
  | append_singleton parts part ih =>
    rw [List.foldlM_append] at h
    cases hbefore : parts.foldlM readPart (none, []) with
    | error error =>
      rw [hbefore] at h
      cases h
    | ok s₁ =>
      rw [hbefore] at h
      simp only [List.foldlM_cons, List.foldlM_nil, bind_pure] at h
      exact (ih hbefore).concat h

/-- A header is refused for a timestamp that is no number. -/
theorem eq_of_foldlM_error {parts : List (List Char)} {s : Option Int × List (List Char)}
    {error : WebhookError} (h : parts.foldlM readPart s = .error error) :
    error = .invalidTimestamp := by
  induction parts generalizing s with
  | nil => cases h
  | cons part parts ih =>
    rw [List.foldlM_cons] at h
    cases hpart : readPart s part with
    | ok s' =>
      rw [hpart] at h
      exact ih h
    | error error' =>
      rw [hpart] at h
      obtain rfl := Except.error.inj h
      rw [readPart.eq_def] at hpart
      split at hpart
      · split at hpart
        · exact (Except.error.inj hpart).symm
        · cases hpart
      · cases hpart
      · cases hpart

/-! ## Comparing -/

/-- Nothing differs exactly when the folded differences are zero. -/
theorem foldl_xor_eq_zero {as bs : List UInt8} (hlength : as.length = bs.length) (acc : UInt8) :
    (as.zip bs).foldl (fun acc p => acc ||| (p.1 ^^^ p.2)) acc = 0 ↔ acc = 0 ∧ as = bs := by
  induction as generalizing bs acc with
  | nil =>
    obtain rfl := List.length_eq_zero_iff.mp hlength.symm
    simp
  | cons a as ih =>
    cases bs with
    | nil => cases hlength
    | cons b bs =>
      rw [List.zip_cons_cons, List.foldl_cons, ih (Nat.succ.inj hlength), UInt8.or_eq_zero_iff,
        UInt8.xor_eq_zero_iff, List.cons.injEq, and_assoc]

/-- The comparison in constant time is equality. -/
theorem constantTimeEq_iff {a b : List Char} : constantTimeEq a b = true ↔ a = b := by
  rw [constantTimeEq]
  split
  · rename_i hlength
    constructor
    · nofun
    · rintro rfl
      exact absurd rfl hlength
  · rename_i hlength
    rw [beq_iff_eq, foldl_xor_eq_zero (not_not.mp hlength)]
    constructor
    · rintro ⟨_, hbytes⟩
      exact String.ofList_inj.mp (utf8_injective hbytes)
    · rintro rfl
      exact ⟨rfl, rfl⟩

/-- Some signature is the expected one. -/
theorem any_constantTimeEq {signatures : List (List Char)} {expected : List Char} :
    signatures.any (constantTimeEq · expected) = true ↔ expected ∈ signatures := by
  rw [List.any_eq_true]
  constructor
  · rintro ⟨signature, hmem, heq⟩
    rw [← constantTimeEq_iff.mp heq]
    exact hmem
  · intro hmem
    exact ⟨expected, hmem, constantTimeEq_iff.mpr rfl⟩

/-! ## The arithmetic -/

/-- What an operation gives fits, whatever the build. -/
theorem Build.fits_of_int64 {build : Build} {exact result : Int}
    (h : build.int64 exact = some result) : FitsInt64 result := by
  rw [Build.int64.eq_def] at h
  split at h
  · rename_i hfits
    obtain rfl := Option.some.inj h
    exact hfits
  · cases build with
    | debug => cases h
    | release =>
      obtain rfl := Option.some.inj h
      have hlow := @Int.le_bmod exact (2 ^ 64) (by decide)
      have hhigh := @Int.bmod_lt exact (2 ^ 64) (by decide)
      constructor
      · omega
      · omega

/-- The distance is exact for times that are less than `2 ^ 63` seconds apart and for no others. -/
theorem distance_eq_iff (build : Build) (now timestamp : Int) :
    build.distance now timestamp = some ((now - timestamp).natAbs : Int) ↔
      -2 ^ 63 < now - timestamp ∧ now - timestamp < 2 ^ 63 := by
  rw [Build.distance]
  generalize now - timestamp = difference
  constructor
  · intro h
    obtain ⟨_, _, hdistance⟩ := Option.bind_eq_some_iff.mp h
    obtain ⟨_, hhigh⟩ := Build.fits_of_int64 hdistance
    omega
  · rintro ⟨hlow, hhigh⟩
    have hdifference : FitsInt64 difference := ⟨by omega, hhigh⟩
    have hdistance : FitsInt64 difference.natAbs := ⟨by omega, by omega⟩
    rw [Build.int64.eq_def, if_pos hdifference, Option.bind_some, Build.int64.eq_def,
      if_pos hdistance]

/-! ## Soundness -/

variable {E : Type} {hmac : List UInt8 → List UInt8 → List UInt8} {parse : List UInt8 → Option E}
  {build : Build} {webhookSecret : String} {now : Int} {payload : List UInt8}
  {signatureHeader : String}

/-- What the checks come to for a header that is read. -/
theorem constructEvent_of_read {timestamp distance : Int} {signatures : List (List Char)}
    (hread : readHeader signatureHeader = .ok (some timestamp, signatures))
    (hdistance : build.distance now timestamp = some distance) :
    constructEvent hmac parse build webhookSecret now payload signatureHeader =
      if 300 < distance then .error .outsideTolerance
      else if hexEncode (hmac (utf8 webhookSecret) (signedPayload timestamp payload)) ∈
          signatures then
        match parse payload with
        | some event => .ok event
        | none => .error .invalidEvent
      else .error .verificationFailed := by
  simp only [constructEvent, hread, hdistance, bind, Except.bind, throw, throwThe,
    MonadExceptOf.throw, pure, Except.pure]
  split
  · rfl
  · by_cases hsigned :
        hexEncode (hmac (utf8 webhookSecret) (signedPayload timestamp payload)) ∈ signatures
    · rw [if_pos hsigned, any_constantTimeEq.mpr hsigned]
      cases parse payload with
      | some event => rfl
      | none => rfl
    · rw [if_neg hsigned, Bool.eq_false_iff.mpr (hsigned ∘ any_constantTimeEq.mp)]
      rfl

/-- What it takes to pass the checks. -/
theorem passesChecks_iff :
    PassesChecks (constructEvent hmac parse build webhookSecret now payload signatureHeader) ↔
      ∃ timestamp signatures distance,
        readHeader signatureHeader = .ok (some timestamp, signatures) ∧
        build.distance now timestamp = some distance ∧ distance ≤ 300 ∧
        hexEncode (hmac (utf8 webhookSecret) (signedPayload timestamp payload)) ∈ signatures := by
  constructor
  · intro h
    cases hread : readHeader signatureHeader with
    | error error =>
      have herror := eq_of_foldlM_error hread
      simp only [constructEvent, hread, herror, bind, Except.bind] at h
      cases h
    | ok s =>
      obtain ⟨timestamp, signatures⟩ := s
      cases timestamp with
      | none =>
        simp only [constructEvent, hread, bind, Except.bind] at h
        cases h
      | some timestamp =>
        cases hdistance : build.distance now timestamp with
        | none =>
          simp only [constructEvent, hread, hdistance, bind, Except.bind] at h
          cases h
        | some distance =>
          rw [constructEvent_of_read hread hdistance] at h
          split at h
          · cases h
          · rename_i hnear
            split at h
            · rename_i hsigned
              exact ⟨timestamp, signatures, distance, rfl, hdistance, by omega, hsigned⟩
            · cases h
  · rintro ⟨timestamp, signatures, distance, hread, hdistance, hnear, hsigned⟩
    rw [constructEvent_of_read hread hdistance, if_neg (by omega), if_pos hsigned]
    cases parse payload with
    | some event => trivial
    | none => rfl

/-- Authentication is sound for a header exactly when its timestamp, if it is read, is less than
`2 ^ 63` seconds from now. -/
theorem webhookSound_iff :
    WebhookSound hmac parse build webhookSecret now payload signatureHeader ↔
      ∀ timestamp, ReadsTimestamp signatureHeader timestamp →
        -2 ^ 63 < now - timestamp ∧ now - timestamp < 2 ^ 63 := by
  constructor
  · intro h timestamp hread
    exact (distance_eq_iff build now timestamp).mp (h.exact timestamp hread)
  · intro h
    constructor
    · intro hpasses
      obtain ⟨timestamp, signatures, distance, hread, hdistance, hnear, hsigned⟩ :=
        passesChecks_iff.mp hpasses
      have hparts := partsRead_of_foldlM hread
      have hexact := (distance_eq_iff build now timestamp).mpr (h timestamp ⟨signatures, hread⟩)
      rw [hdistance] at hexact
      obtain rfl := Option.some.inj hexact
      exact ⟨timestamp, hparts.timestamp timestamp rfl, by omega, hparts.signatures _ hsigned⟩
    · intro timestamp hread
      exact (distance_eq_iff build now timestamp).mpr (h timestamp hread)

/-- The digest of an empty object, signed at a time that is `2 ^ 63` seconds before the one of the
example. -/
def wrappedDigest : List UInt8 := [
  0xac, 0xe6, 0xf9, 0x3b, 0x79, 0x97, 0x4e, 0xf0, 0xf9, 0x28, 0xde, 0x60, 0xc8, 0x93, 0xa1, 0xb1,
  0x59, 0xd4, 0x9f, 0xe7, 0x0e, 0x53, 0x4a, 0x6f, 0x2c, 0xc8, 0xa5, 0xd4, 0xd4, 0xf9, 0xca, 0xaa]

/-- A header with that time and its signature under the secret of the example. -/
def wrappedHeader : String :=
  "t=-9223372035154775808,v1=ace6f93b79974ef0f928de60c893a1b159d49fe70e534a6f2cc8a5d4d4f9caaa"

/-- It is accepted although its time is `2 ^ 63` seconds back, and a build with checks for overflow
panics. -/
theorem not_webhookSound :
    constructEvent (fun _ _ => wrappedDigest) (fun _ => some ()) .release "whsec_test" 1700000000
        [0x7b, 0x7d] wrappedHeader = .ok () ∧
      ¬ WebhookSound (fun _ _ => wrappedDigest) (fun _ => some ()) .release "whsec_test" 1700000000
        [0x7b, 0x7d] wrappedHeader ∧
      constructEvent (fun _ _ => wrappedDigest) (fun _ => some ()) .debug "whsec_test" 1700000000
        [0x7b, 0x7d] wrappedHeader = .error .overflow := by
  have haccepted : constructEvent (fun _ _ => wrappedDigest) (fun _ => some ()) .release
      "whsec_test" 1700000000 [0x7b, 0x7d] wrappedHeader = .ok () := by
    decide +kernel
  have htimes : ∀ part ∈ headerParts wrappedHeader, ∀ timestamp ∈ parseInt64 (part.drop 2),
      300 < (1700000000 - timestamp).natAbs := by
    decide +kernel
  refine ⟨haccepted, ?_, by decide +kernel⟩
  intro h
  obtain ⟨timestamp, ⟨before, value, after, hparts, _, hvalue⟩, hnear, _⟩ := h.authentic (by
    rw [haccepted]
    trivial)
  have hpart : 't' :: '=' :: value ∈ headerParts wrappedHeader := by
    rw [hparts]
    exact List.mem_append_right _ List.mem_cons_self
  have hfar := htimes _ hpart timestamp hvalue
  omega

end Nopass
