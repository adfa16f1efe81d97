import Nopass.Core.Crypto.Srp6a
import Nopass.Client.Identity
import Nopass.Client.Webauthn
import Nopass.Core.Text.Uuid

/-!
# SRP handshakes

The client computes with big integers that travel as hexadecimal and base64 texts. The server
computes as the library does that it wraps: the same formulas, on bytes. SHA-256 is a
parameter.
-/

namespace Nopass

namespace SrpClient

/-- `N`: the modulus of the 2048-bit group. -/
def N : Nat :=
  0xAC6BDB41324A9A9BF166DE5E1389582FAF72B6651987EE07FC3192943DB56050A37329CBB4A099ED8193E0757767A13DD52312AB4B03310DCD7F48A9DA04FD50E8083969EDB767B0CF6095179A163AB3661A05FBD5FAAAE82918A9962F0B93B855F97993EC975EEAA80D740ADBF4FF747359D041D5C33EA71D281E446B14773BCA97B43A23FB801676BD207A436C6481F1D2B9078717461A5B9D32E688F87748544523B524B0D57D5EA77A2775D2ECFA032CFBDBF52FB3786160279004E57AE6AF874E7303CE53299CCC041C7BC308D82A5698F3A8D0C38271AE35F8E9DBFBB694B5C803D89F7AE435DE236D525F54759B65E372FCD68EF20FA7111F9E4AFF73

/-- `G`. -/
def G : Nat := 2

/-- `N_BYTES`. -/
def nBytes : Nat := 256

/-- A text of hexadecimal digits. -/
abbrev HexText := List Char

/-- `parseInt` of two digits. -/
def parseHexPair (a b : Char) : UInt8 :=
  UInt8.ofNat (16 * (hexDigit a).getD 0 + (hexDigit b).getD 0)

/-- The bytes of pairs of digits. -/
def pairBytes : HexText → Bytes
  | a :: b :: rest => parseHexPair a b :: pairBytes rest
  | _ => []

/-- `hexToBytes`. -/
def hexToBytes (hex : HexText) : Bytes :=
  pairBytes (if hex.length % 2 ≠ 0 then '0' :: hex else hex)

/-- `bytesToHex`. -/
def bytesToHex (bytes : Bytes) : HexText :=
  bytes.flatMap fun x => [hexChar (x.toNat / 16), hexChar (x.toNat % 16)]

/-- `hexToBase64`. -/
def hexToBase64 (hex : HexText) : String := Base64.encode (hexToBytes hex)

/-- `base64ToHex`. -/
def base64ToHex (b64 : String) : Client HexText := do
  let bytes ← fromBase64 b64
  pure (bytesToHex bytes)

/-- `bigIntToBytes`. -/
def bigIntToBytes (n : Nat) : Bytes := if n = 0 then [0] else hexToBytes (Nat.toDigits 16 n)

/-- `bytesToBigInt`: no digits are no number. -/
def bytesToBigInt (bytes : Bytes) : Client Nat :=
  orThrow "SyntaxError" (if bytesToHex bytes = [] then none else hexNumber (bytesToHex bytes))

/-- `modPow`, for exponents that are not negative. -/
def modPow (base : Int) (exp mod : Nat) : Nat :=
  Srp6a.powerLoop mod 1 ((base.tmod mod + mod).tmod mod).toNat exp

section Functions

variable (sha256 : Bytes → Bytes)

/-- The generator as wide as the modulus. -/
def paddedG : Bytes :=
  List.replicate (nBytes - (bigIntToBytes G).length) 0 ++ bigIntToBytes G

/-- `computeK`. -/
def computeK : Client Nat := bytesToBigInt (sha256 (bigIntToBytes N ++ paddedG))

/-- `deriveX`. -/
def deriveX (saltHex : HexText) (identity password : String) : Client Nat :=
  bytesToBigInt (sha256 (hexToBytes saltHex ++ sha256 (utf8 (identity ++ ":" ++ password))))

/-- `SrpRegistrationMaterial`. -/
structure SrpRegistrationMaterial where
  srpSalt : String
  srpVerifier : String

/-- `privateSession`: two numbers as hexadecimal texts. -/
structure PrivateSession where
  publicHex : HexText
  secretHex : HexText

/-- `SrpStep1Result`. -/
structure SrpStep1Result where
  clientPublicA : String
  privateSession : PrivateSession

/-- `SrpStep2Result`. -/
structure SrpStep2Result where
  clientProofM1 : String
  sessionKey : Bytes
  verifyServerProof : String → Client Unit

/-- `generateSrpRegistration`, with the random salt. -/
def generateSrpRegistration (email masterPassword : String) (saltBytes : Bytes) :
    Client SrpRegistrationMaterial := do
  let saltHex := bytesToHex saltBytes
  let x ← deriveX sha256 saltHex email masterPassword
  let v := modPow G x N
  pure { srpSalt := hexToBase64 saltHex, srpVerifier := hexToBase64 (bytesToHex (bigIntToBytes v)) }

/-- `srpStep1`, with the random bytes. -/
def srpStep1 (aBytes : Bytes) : Client SrpStep1Result := do
  let a ← bytesToBigInt aBytes
  let A := modPow G a N
  let aHex := bytesToHex (bigIntToBytes A)
  pure { clientPublicA := hexToBase64 aHex
         privateSession := { publicHex := aHex, secretHex := bytesToHex (bigIntToBytes a) } }

/-- What the comparison of two proofs comes to: every byte is looked at. -/
def proofDiff (expected given : Bytes) : Nat :=
  (List.range expected.length).foldl
    (fun diff i => diff ||| ((expected.getD i 0).toNat ^^^ (given.getD i 0).toNat))
    (if given.length ≠ expected.length then 1 else 0)

/-- `verifyServerProof`. -/
def verifyServerProof (aBytes m1Bytes sBytes : Bytes) (serverM2B64 : String) : Client Unit := do
  let expectedM2 := sha256 (aBytes ++ m1Bytes ++ sBytes)
  let serverM2Hex ← base64ToHex serverM2B64
  throwUnless (decide (proofDiff expectedM2 (hexToBytes serverM2Hex) = 0))
    "Server proof M2 verification failed — mutual auth check"

/-- `srpStep2`. -/
def srpStep2 (email masterPassword srpSaltB64 serverPublicBB64 : String)
    (privateSession : PrivateSession) : Client SrpStep2Result := do
  let k ← computeK sha256
  let saltHex ← base64ToHex srpSaltB64
  let bHex ← base64ToHex serverPublicBB64
  let B ← bytesToBigInt (hexToBytes bHex)
  let a ← bytesToBigInt (hexToBytes privateSession.secretHex)
  let A ← bytesToBigInt (hexToBytes privateSession.publicHex)
  throwUnless (decide (B % N ≠ 0)) "Invalid server public ephemeral B"
  let x ← deriveX sha256 saltHex email masterPassword
  let aBytes := bigIntToBytes A
  let bBytes := bigIntToBytes B
  let u ← bytesToBigInt (sha256 (aBytes ++ bBytes))
  let kgx : Nat := k * modPow G x N % N
  let base : Int := (((B : Int) - kgx).tmod N + N).tmod N
  let S := modPow base (a + u * x) N
  let sBytes := bigIntToBytes S
  let m1Bytes := sha256 (aBytes ++ bBytes ++ sBytes)
  pure { clientProofM1 := hexToBase64 (bytesToHex m1Bytes)
         sessionKey := sBytes
         verifyServerProof := verifyServerProof sha256 aBytes m1Bytes sBytes }

end Functions

end SrpClient

/-! ## The server's library -/

namespace SrpServer

open SrpClient

variable (sha256 : Bytes → Bytes)

/-- The multiplier. -/
def multiplier : Nat := ofBigEndian (sha256 (bigIntToBytes N ++ paddedG))

/-- The server's public value, of its secret and the verifier. -/
def publicEphemeral (secret verifier : Bytes) : Nat :=
  (multiplier sha256 * ofBigEndian verifier % N + Srp6a.power N G (ofBigEndian secret)) % N

/-- What a server that knows the verifier computes from the client's public value. -/
structure Verifier where
  m1 : Bytes
  m2 : Bytes
  key : Bytes

/-- `process_reply`: a public value that is a multiple of the modulus is refused. -/
def processReply (secret verifier clientPublicA : Bytes) : Option Verifier :=
  let A := ofBigEndian clientPublicA
  if A % N = 0 then none
  else
    let aBytes := bigIntToBytes A
    let bBytes := bigIntToBytes (publicEphemeral sha256 secret verifier)
    let u := ofBigEndian (sha256 (aBytes ++ bBytes))
    let vu := Srp6a.power N (ofBigEndian verifier) u
    let key := bigIntToBytes (Srp6a.power N (A * vu % N) (ofBigEndian secret))
    let m1 := sha256 (aBytes ++ bBytes ++ key)
    some { m1 := m1, m2 := sha256 (aBytes ++ m1 ++ key), key := key }

/-- What a successful round 2 returns. -/
structure VerifyResult where
  serverProofM2 : Bytes
  sessionKey : Bytes
  deriving DecidableEq

/-- `srp_server_init`, with the random secret. -/
def srpServerInit (verifier secret : Bytes) : Bytes :=
  bigIntToBytes (publicEphemeral sha256 secret verifier)

/-- `srp_server_verify`. -/
def srpServerVerify (verifier serverEphemeralB clientPublicA clientProofM1 : Bytes) :
    Option VerifyResult := do
  let srvVerifier ← processReply sha256 serverEphemeralB verifier clientPublicA
  if srvVerifier.m1 = clientProofM1 then
    some { serverProofM2 := srvVerifier.m2, sessionKey := srvVerifier.key }
  else none

end SrpServer

/-! ## Texts of numbers -/

namespace SrpClient

/-- A digit is below sixteen. -/
theorem hexDigit_lt (c : Char) : (hexDigit c).getD 0 < 16 := by
  unfold hexDigit
  split
  · rename_i h
    obtain ⟨-, hle⟩ := h
    have hnat : c.toNat ≤ 57 := hle
    simp only [Option.getD_some]
    omega
  · split
    · rename_i h
      obtain ⟨-, hle⟩ := h
      have hnat : c.toNat ≤ 102 := hle
      simp only [Option.getD_some]
      omega
    · split
      · rename_i h
        obtain ⟨-, hle⟩ := h
        have hnat : c.toNat ≤ 70 := hle
        simp only [Option.getD_some]
        omega
      · decide

/-- The number of some digits, after those that gave `acc`. -/
def digitsValue (acc : Nat) (hex : HexText) : Nat :=
  hex.foldl (fun n c => 16 * n + (hexDigit c).getD 0) acc

/-- Bytes of pairs of digits stand for the number of the digits. -/
theorem foldl_pairBytes {hex : HexText} (heven : hex.length % 2 = 0) (acc : Nat) :
    (pairBytes hex).foldl (fun n b => n * 256 + b.toNat) acc = digitsValue acc hex := by
  induction hex using pairBytes.induct generalizing acc with
  | case1 a b rest ih =>
    have ha := hexDigit_lt a
    have hb := hexDigit_lt b
    rw [List.length_cons, List.length_cons] at heven
    have hbyte : (parseHexPair a b).toNat = 16 * (hexDigit a).getD 0 + (hexDigit b).getD 0 := by
      rw [parseHexPair, UInt8.toNat_ofNat', Nat.mod_eq_of_lt (by omega)]
    rw [pairBytes, List.foldl_cons, ih (by omega), hbyte, digitsValue, digitsValue,
      List.foldl_cons, List.foldl_cons]
    congr 1
    omega
  | case2 hex hshort =>
    cases hex with
    | nil => rfl
    | cons a rest =>
      cases rest with
      | nil => cases heven
      | cons b rest => exact absurd rfl (hshort a b rest)

/-- The number of a hexadecimal text. -/
theorem ofBigEndian_hexToBytes (hex : HexText) :
    ofBigEndian (hexToBytes hex) = digitsValue 0 hex := by
  rw [hexToBytes, ofBigEndian]
  split
  · rename_i hodd
    rw [foldl_pairBytes (by rw [List.length_cons]; omega)]
    rfl
  · rename_i heven
    rw [foldl_pairBytes (by omega)]

/-- A number is the number of its digits. -/
theorem digitsValue_toDigits (n : Nat) : digitsValue 0 (Nat.toDigits 16 n) = n := by
  have hdigit : ∀ d < 16, hexDigit (Nat.digitChar d) = some d := by decide
  induction n using Nat.strong_induction_on with
  | _ n ih =>
    by_cases hsmall : n < 16
    · rw [Nat.toDigits_of_lt_base hsmall, digitsValue, List.foldl_cons, List.foldl_nil,
        hdigit n hsmall, Option.getD_some]
      omega
    · have hrest := ih (n / 16) (by omega)
      rw [digitsValue] at hrest
      rw [Nat.toDigits_of_base_le (by decide) (by omega), digitsValue, List.foldl_append, hrest,
        List.foldl_cons, List.foldl_nil, hdigit _ (Nat.mod_lt n (by decide)), Option.getD_some]
      omega

/-- A number is read back from its bytes. -/
@[simp] theorem ofBigEndian_bigIntToBytes (n : Nat) : ofBigEndian (bigIntToBytes n) = n := by
  unfold bigIntToBytes
  split
  · rename_i hzero
    rw [hzero]
    rfl
  · rw [ofBigEndian_hexToBytes, digitsValue_toDigits]

/-- No number is without bytes. -/
theorem bigIntToBytes_ne_nil (n : Nat) : bigIntToBytes n ≠ [] := by
  intro hnil
  have hvalue := ofBigEndian_bigIntToBytes n
  rw [hnil] at hvalue
  have hzero : n = 0 := hvalue.symm
  rw [hzero] at hnil
  cases hnil

/-- The digits of a byte. -/
theorem parseHexPair_hexChar (b : UInt8) :
    parseHexPair (hexChar (b.toNat / 16)) (hexChar (b.toNat % 16)) = b := by
  have hb := b.toNat_lt
  rw [parseHexPair, (hexDigit_hexChar (n := b.toNat / 16) (by omega)).1,
    (hexDigit_hexChar (n := b.toNat % 16) (by omega)).1, Option.getD_some, Option.getD_some]
  have hsplit : 16 * (b.toNat / 16) + b.toNat % 16 = b.toNat := by omega
  rw [hsplit, UInt8.ofNat_toNat]

/-- Bytes have an even number of digits. -/
theorem length_bytesToHex (bytes : Bytes) : (bytesToHex bytes).length = 2 * bytes.length := by
  induction bytes with
  | nil => rfl
  | cons b rest ih =>
    rw [bytesToHex, List.flatMap_cons, List.length_append, ← bytesToHex, ih, List.length_cons,
      List.length_cons, List.length_cons, List.length_nil]
    omega

/-- Bytes are read back from their digits. -/
@[simp] theorem hexToBytes_bytesToHex (bytes : Bytes) : hexToBytes (bytesToHex bytes) = bytes := by
  rw [hexToBytes, length_bytesToHex, if_neg (by omega)]
  induction bytes with
  | nil => rfl
  | cons b rest ih =>
    rw [bytesToHex, List.flatMap_cons, ← bytesToHex]
    change parseHexPair _ _ :: pairBytes (bytesToHex rest) = _
    rw [parseHexPair_hexChar, ih]

/-- The number of bytes that there are. -/
theorem bytesToBigInt_eq {bytes : Bytes} (h : bytes ≠ []) :
    bytesToBigInt bytes = .ok (ofBigEndian bytes) := by
  have hhex : bytesToHex bytes ≠ [] := by
    intro hnil
    have hlength := length_bytesToHex bytes
    have hpos := List.length_pos_iff.mpr h
    rw [hnil, List.length_nil] at hlength
    omega
  have hnumber : ∀ (bytes : Bytes) (acc : Nat),
      (bytesToHex bytes).foldlM (fun n c => (hexDigit c).map (16 * n + ·)) acc =
        some (bytes.foldl (fun n b => n * 256 + b.toNat) acc) := by
    intro bytes
    induction bytes with
    | nil => exact fun _ => rfl
    | cons b rest ih =>
      intro acc
      have hb := b.toNat_lt
      rw [bytesToHex, List.flatMap_cons, List.foldlM_append, ← bytesToHex, List.foldl_cons]
      simp only [List.foldlM_cons, List.foldlM_nil,
        (hexDigit_hexChar (n := b.toNat / 16) (by omega)).1,
        (hexDigit_hexChar (n := b.toNat % 16) (by omega)).1, Option.map_some, Option.bind_eq_bind,
        Option.bind_some, Option.pure_def, ih]
      congr 2
      omega
  rw [bytesToBigInt, if_neg hhex, hexNumber, hnumber]
  rfl

/-- Bytes travel as base64. -/
theorem fromBase64_encode (bytes : Bytes) : fromBase64 (Base64.encode bytes) = .ok bytes := by
  rw [fromBase64, Base64.atob_encode]
  rfl

@[simp] theorem hexToBase64_bytesToHex (bytes : Bytes) :
    hexToBase64 (bytesToHex bytes) = Base64.encode bytes := by
  rw [hexToBase64, hexToBytes_bytesToHex]

/-! ## Powers -/

/-- A base is brought between zero and the modulus. -/
def wrap (modulus : Nat) (z : Int) : Nat := ((z.tmod modulus + modulus).tmod modulus).toNat

/-- The base that was brought there. -/
theorem wrap_cast {modulus : Nat} (h : 0 < modulus) (z : Int) :
    ((z.tmod modulus + modulus).tmod modulus) = (wrap modulus z : Int) := by
  have hlt := Int.lt_tmod_of_pos z (show (0 : Int) < modulus by omega)
  have hnonneg : 0 ≤ (z.tmod modulus + modulus).tmod modulus := Int.tmod_nonneg _ (by omega)
  rw [wrap, Int.toNat_of_nonneg hnonneg]

/-- It is the base in the ring of residues. -/
theorem cast_wrap {modulus : Nat} (h : 0 < modulus) (z : Int) :
    (wrap modulus z : ZMod modulus) = (z : ZMod modulus) := by
  have hcast := congrArg (Int.cast (R := ZMod modulus)) (wrap_cast h z)
  rw [Srp6a.cast_tmod, Int.cast_add, Srp6a.cast_tmod, Int.cast_natCast, Int.cast_natCast,
    ZMod.natCast_self, add_zero] at hcast
  exact hcast.symm

theorem one_lt_N : 1 < N := by decide

theorem coprime_G_N : Nat.Coprime G N := by
  rw [G, Nat.coprime_two_left, Nat.odd_iff]
  decide

/-- `modPow` in the ring of residues. -/
theorem cast_modPow (base : Int) (exp : Nat) :
    (modPow base exp N : ZMod N) = (base : ZMod N) ^ exp := by
  have hwrap := cast_wrap (show 0 < N by decide) base
  rw [modPow, Srp6a.cast_powerLoop, Nat.cast_one, one_mul]
  change (wrap N base : ZMod N) ^ exp = _
  rw [hwrap]

theorem modPow_lt (base : Int) (exp : Nat) : modPow base exp N < N :=
  Srp6a.powerLoop_lt one_lt_N _ _

/-- A public value is the power of the generator. -/
theorem modPow_G (exp : Nat) : modPow G exp N = Srp6a.power N G exp := by
  have hpower : Srp6a.power N G exp < N := Srp6a.powerLoop_lt one_lt_N _ _
  apply Srp6a.eq_of_cast (modPow_lt _ _) hpower
  rw [cast_modPow, Srp6a.cast_power one_lt_N, Int.cast_natCast]

/-! ## What a client computes -/

section Step2

variable (sha256 : Bytes → Bytes)

/-- The private key of a password. -/
def privateKey (salt : Bytes) (email masterPassword : String) : Nat :=
  ofBigEndian (sha256 (salt ++ sha256 (utf8 (email ++ ":" ++ masterPassword))))

/-- What both sides hash with the public values, as a number. -/
def scrambler (A B : Nat) : Nat := ofBigEndian (sha256 (bigIntToBytes A ++ bigIntToBytes B))

/-- The premaster secret of a client. -/
def premaster (x a A B : Nat) : Nat :=
  let kgx : Nat := SrpServer.multiplier sha256 * modPow G x N % N
  modPow ((((B : Int) - kgx).tmod N + N).tmod N) (a + scrambler sha256 A B * x) N

/-- What the first proof is the hash of. -/
def transcript (A B : Nat) (key : Bytes) : Bytes := bigIntToBytes A ++ bigIntToBytes B ++ key

/-- The second round of a client with this private key and these numbers. -/
def step2Result (x a A B : Nat) : SrpStep2Result :=
  let sBytes := bigIntToBytes (premaster sha256 x a A B)
  let m1Bytes := sha256 (transcript A B sBytes)
  { clientProofM1 := Base64.encode m1Bytes
    sessionKey := sBytes
    verifyServerProof := verifyServerProof sha256 (bigIntToBytes A) m1Bytes sBytes }

variable {sha256}

/-- The multiplier of the client is the server's. -/
theorem computeK_eq (hsha : ∀ m, sha256 m ≠ []) :
    computeK sha256 = .ok (SrpServer.multiplier sha256) :=
  bytesToBigInt_eq (hsha _)

theorem deriveX_eq (hsha : ∀ m, sha256 m ≠ []) (salt : Bytes) (email masterPassword : String) :
    deriveX sha256 (bytesToHex salt) email masterPassword =
      .ok (privateKey sha256 salt email masterPassword) := by
  rw [deriveX, bytesToBigInt_eq (hsha _), hexToBytes_bytesToHex, privateKey]

/-- The registration of a password. -/
theorem generateSrpRegistration_eq (hsha : ∀ m, sha256 m ≠ []) (email masterPassword : String)
    (salt : Bytes) :
    generateSrpRegistration sha256 email masterPassword salt =
      .ok { srpSalt := Base64.encode salt
            srpVerifier := Base64.encode
              (bigIntToBytes (modPow G (privateKey sha256 salt email masterPassword) N)) } := by
  rw [generateSrpRegistration, deriveX_eq hsha]
  simp only [bind, Except.bind, pure, Except.pure, hexToBase64_bytesToHex]

/-- The first round of a client. -/
theorem srpStep1_eq {aBytes : Bytes} (h : aBytes ≠ []) :
    srpStep1 aBytes = .ok
      { clientPublicA := Base64.encode (bigIntToBytes (modPow G (ofBigEndian aBytes) N))
        privateSession :=
          { publicHex := bytesToHex (bigIntToBytes (modPow G (ofBigEndian aBytes) N))
            secretHex := bytesToHex (bigIntToBytes (ofBigEndian aBytes)) } } := by
  rw [srpStep1, bytesToBigInt_eq h]
  simp only [bind, Except.bind, pure, Except.pure, hexToBase64_bytesToHex]

/-- The second round reads back what the first kept, and refuses a public value of the server
that is a multiple of the modulus. -/
theorem srpStep2_eq (hsha : ∀ m, sha256 m ≠ []) (email masterPassword : String)
    {saltText bText : String} {salt b : Bytes} (hsalt : fromBase64 saltText = .ok salt)
    (hb : fromBase64 bText = .ok b) (hne : b ≠ []) (a A : Nat) :
    srpStep2 sha256 email masterPassword saltText bText
        { publicHex := bytesToHex (bigIntToBytes A), secretHex := bytesToHex (bigIntToBytes a) } =
      if ofBigEndian b % N = 0 then .error "Invalid server public ephemeral B"
      else .ok (step2Result sha256 (privateKey sha256 salt email masterPassword) a A
        (ofBigEndian b)) := by
  rw [srpStep2, computeK_eq hsha, base64ToHex, base64ToHex, hsalt, hb]
  simp only [bind, Except.bind, pure, Except.pure, hexToBytes_bytesToHex, bytesToBigInt_eq hne,
    bytesToBigInt_eq (bigIntToBytes_ne_nil _), ofBigEndian_bigIntToBytes]
  by_cases hzero : ofBigEndian b % N = 0
  · rw [if_pos hzero, throwUnless, if_neg (by simp [hzero])]
  · rw [if_neg hzero, throwUnless, if_pos (by simp [hzero])]
    simp only [deriveX_eq hsha, bytesToBigInt_eq (hsha _), hexToBase64_bytesToHex]
    rfl

end Step2

/-! ## Comparing proofs -/

/-- A sum of bits is zero when every part of it is. -/
theorem foldl_or_eq_zero (f : Nat → Nat) (indexes : List Nat) (diff : Nat) :
    indexes.foldl (fun diff i => diff ||| f i) diff = 0 ↔ diff = 0 ∧ ∀ i ∈ indexes, f i = 0 := by
  induction indexes generalizing diff with
  | nil => simp
  | cons i rest ih =>
    rw [List.foldl_cons, ih, Nat.or_eq_zero_iff, List.forall_mem_cons, and_assoc]

/-- Bytes without a difference are the same byte. -/
theorem xor_toNat_eq_zero {a b : UInt8} : a.toNat ^^^ b.toNat = 0 ↔ a = b := by
  rw [← UInt8.toNat_xor, ← UInt8.xor_eq_zero_iff, ← UInt8.toNat_inj]
  rfl

/-- Only the proof that is expected makes no difference. -/
theorem proofDiff_eq_zero {expected given : Bytes} :
    proofDiff expected given = 0 ↔ given = expected := by
  rw [proofDiff, foldl_or_eq_zero]
  constructor
  · rintro ⟨hlength, hbytes⟩
    have hsame : given.length = expected.length := by
      by_contra hne
      rw [if_pos hne] at hlength
      cases hlength
    apply List.ext_getElem hsame
    intro i hi hi'
    have hbyte := xor_toNat_eq_zero.mp (hbytes i (List.mem_range.mpr hi'))
    rw [List.getD_eq_getElem?_getD, List.getD_eq_getElem?_getD, List.getElem?_eq_getElem hi',
      List.getElem?_eq_getElem hi, Option.getD_some, Option.getD_some] at hbyte
    exact hbyte.symm
  · rintro rfl
    refine ⟨if_neg (by simp), ?_⟩
    intro i _
    exact Nat.xor_self _

/-- A client accepts one proof of the server. -/
theorem verifyServerProof_eq_ok {sha256 : Bytes → Bytes} {aBytes m1Bytes sBytes : Bytes}
    {text : String} {u : Unit} :
    verifyServerProof sha256 aBytes m1Bytes sBytes text = .ok u ↔
      fromBase64 text = .ok (sha256 (aBytes ++ m1Bytes ++ sBytes)) := by
  rw [verifyServerProof, base64ToHex]
  cases fromBase64 text with
  | error e => simp [bind, Except.bind]
  | ok bytes =>
    simp only [bind, Except.bind, pure, Except.pure, hexToBytes_bytesToHex,
      client_throwUnless_eq_ok, decide_eq_true_eq, proofDiff_eq_zero, Except.ok.injEq]

end SrpClient

/-! ## What the server computes -/

namespace SrpServer

open SrpClient

variable {sha256 : Bytes → Bytes} {verifier secret clientPublicA clientProofM1 : Bytes}

/-- The session key of a server. -/
def sessionKey (sha256 : Bytes → Bytes) (verifier secret : Bytes) (A : Nat) : Bytes :=
  let u := scrambler sha256 A (publicEphemeral sha256 secret verifier)
  bigIntToBytes (Srp6a.power N (A * Srp6a.power N (ofBigEndian verifier) u % N)
    (ofBigEndian secret))

/-- A server accepts one proof, and none for a multiple of the modulus. -/
theorem srpServerVerify_eq_some {result : VerifyResult} :
    srpServerVerify sha256 verifier secret clientPublicA clientProofM1 = some result ↔
      ofBigEndian clientPublicA % N ≠ 0 ∧
      clientProofM1 = sha256 (transcript (ofBigEndian clientPublicA)
        (publicEphemeral sha256 secret verifier)
        (sessionKey sha256 verifier secret (ofBigEndian clientPublicA))) ∧
      result =
        { serverProofM2 := sha256 (bigIntToBytes (ofBigEndian clientPublicA) ++ clientProofM1 ++
            sessionKey sha256 verifier secret (ofBigEndian clientPublicA))
          sessionKey := sessionKey sha256 verifier secret (ofBigEndian clientPublicA) } := by
  rw [srpServerVerify, processReply]
  by_cases hzero : ofBigEndian clientPublicA % N = 0
  · simp [hzero]
  · simp only [if_neg hzero, Option.bind_eq_bind, Option.bind_some]
    rw [Option.ite_none_right_eq_some, Option.some_inj]
    constructor
    · rintro ⟨hproof, hresult⟩
      refine ⟨hzero, hproof.symm, ?_⟩
      rw [← hresult, ← hproof]
      rfl
    · rintro ⟨-, hproof, hresult⟩
      refine ⟨hproof.symm, ?_⟩
      rw [hresult, hproof]
      rfl

end SrpServer

/-! ## Both sides -/

section Agreement

open SrpClient SrpServer

variable {sha256 : Bytes → Bytes}

theorem premaster_lt (x a A B : Nat) : premaster sha256 x a A B < N := modPow_lt _ _

/-- The premaster secret of a client in the ring of residues. -/
theorem cast_premaster (x a A B : Nat) :
    (premaster sha256 x a A B : ZMod N) = Srp6a.clientPremaster (G : ZMod N)
      (multiplier sha256 : ZMod N) a (scrambler sha256 A B) x (B : ZMod N) := by
  rw [premaster, cast_modPow, Srp6a.cast_tmod, Int.cast_add, Srp6a.cast_tmod, Int.cast_natCast,
    ZMod.natCast_self, add_zero, Int.cast_sub, Int.cast_natCast, Int.cast_natCast,
    ZMod.natCast_mod, Nat.cast_mul, cast_modPow, Int.cast_natCast, Srp6a.clientPremaster]

/-- The public value of a server in the ring of residues. -/
theorem cast_publicEphemeral (secret verifier : Bytes) :
    (publicEphemeral sha256 secret verifier : ZMod N) = Srp6a.serverPublic (G : ZMod N)
      (multiplier sha256 : ZMod N) (ofBigEndian secret) (ofBigEndian verifier : ZMod N) := by
  rw [publicEphemeral, ZMod.natCast_mod, Nat.cast_add, ZMod.natCast_mod, Nat.cast_mul,
    Srp6a.cast_power one_lt_N, Srp6a.serverPublic]

/-- With the verifier of its password both sides compute one key. -/
theorem premaster_eq_sessionKey (sha256 : Bytes → Bytes) (x a : Nat) (secret : Bytes) :
    bigIntToBytes (premaster sha256 x a (modPow G a N)
        (publicEphemeral sha256 secret (bigIntToBytes (modPow G x N)))) =
      sessionKey sha256 (bigIntToBytes (modPow G x N)) secret (modPow G a N) := by
  rw [sessionKey]
  congr 1
  have hpower : ∀ base exponent, Srp6a.power N base exponent < N :=
    fun _ _ => Srp6a.powerLoop_lt one_lt_N _ _
  apply Srp6a.eq_of_cast (premaster_lt _ _ _ _) (hpower _ _)
  have hA : (modPow G a N : ZMod N) = Srp6a.clientPublic (G : ZMod N) a := by
    rw [cast_modPow, Int.cast_natCast, Srp6a.clientPublic]
  have hv : (modPow G x N : ZMod N) = Srp6a.verifier (G : ZMod N) x := by
    rw [cast_modPow, Int.cast_natCast, Srp6a.verifier]
  rw [cast_premaster, cast_publicEphemeral, ofBigEndian_bigIntToBytes, hv,
    Srp6a.premaster_agree, Srp6a.cast_power one_lt_N, ZMod.natCast_mod, Nat.cast_mul,
    Srp6a.cast_power one_lt_N, hA, hv, Srp6a.serverPremaster]

/-- A digest has bytes. -/
theorem Sha256.digest_ne_nil (sha256 : Sha256) (m : Bytes) : sha256.digest m ≠ [] := by
  intro hnil
  have hlength := sha256.length_digest m
  rw [hnil] at hlength
  cases hlength

variable {sha : Sha256} {email masterPassword : String} {aBytes : Bytes}

/-- A public value of a client is not a multiple of the modulus. -/
theorem modPow_G_mod_ne_zero (a : Nat) : modPow G a N % N ≠ 0 := by
  rw [modPow_G]
  exact Srp6a.power_ne_zero one_lt_N coprime_G_N a

/-- A digest of thirty-two bytes, by the last byte of a text. -/
def lastByteSha256 : Sha256 where
  digest m := List.replicate 31 0 ++ [m.getLast?.getD 0]
  length_digest _ := rfl

/-- Public values of a server under this digest. -/
theorem lastByteSha256_publicEphemeral :
    publicEphemeral lastByteSha256.digest [3] (bigIntToBytes (modPow G
      (privateKey lastByteSha256.digest [9] "alice@example.com" "pw\x05") N)) = 72 := by
  have hmultiplier : multiplier lastByteSha256.digest = 2 := by
    have hlast : (bigIntToBytes N ++ paddedG).getLast? = some 2 := by
      rw [List.getLast?_append]
      rfl
    have hdigest : ∀ m, lastByteSha256.digest m =
        List.replicate 31 0 ++ [m.getLast?.getD 0] := fun _ => rfl
    rw [multiplier, hdigest, hlast]
    rfl
  have hx : privateKey lastByteSha256.digest [9] "alice@example.com" "pw\x05" = 5 := rfl
  rw [publicEphemeral, hmultiplier, hx, ofBigEndian_bigIntToBytes, modPow_G,
    Srp6a.power_eq one_lt_N, Srp6a.power_eq one_lt_N]
  decide

/-- A password that was registered logs in: when the server's public value is no multiple of the
modulus, the server accepts the client's proof, the client accepts the server's, and both hold
one session key. -/
theorem handshake_agrees {registration : SrpRegistrationMaterial} {salt randomSalt : Bytes}
    {verifier : Bytes} (ha : aBytes ≠ [])
    (hregistration : generateSrpRegistration sha.digest email masterPassword randomSalt =
      .ok registration)
    (hsalt : Base64.decode registration.srpSalt = some salt)
    (hverifier : Base64.decode registration.srpVerifier = some verifier) (secret : Bytes)
    (hB : ofBigEndian (srpServerInit sha.digest verifier secret) % N ≠ 0) :
    ∃ step1 step2 clientPublicA clientProofM1 result,
      srpStep1 aBytes = .ok step1 ∧
      srpStep2 sha.digest email masterPassword (Base64.encode salt)
        (Base64.encode (srpServerInit sha.digest verifier secret)) step1.privateSession =
          .ok step2 ∧
      Base64.decode step1.clientPublicA = some clientPublicA ∧
      Base64.decode step2.clientProofM1 = some clientProofM1 ∧
      srpServerVerify sha.digest verifier secret clientPublicA clientProofM1 = some result ∧
      step2.verifyServerProof (Base64.encode result.serverProofM2) = .ok () ∧
      step2.sessionKey = result.sessionKey := by
  have hsha := sha.digest_ne_nil
  rw [generateSrpRegistration_eq hsha, Except.ok.injEq] at hregistration
  subst hregistration
  rw [Base64.decode_encode, Option.some_inj] at hsalt hverifier
  subst hsalt
  have hkey := premaster_eq_sessionKey sha.digest
    (privateKey sha.digest randomSalt email masterPassword) (ofBigEndian aBytes) secret
  rw [hverifier] at hkey
  have hstep2 := srpStep2_eq hsha email masterPassword (fromBase64_encode randomSalt)
    (fromBase64_encode (srpServerInit sha.digest verifier secret)) (bigIntToBytes_ne_nil _)
    (ofBigEndian aBytes) (modPow G (ofBigEndian aBytes) N)
  rw [if_neg hB, srpServerInit, ofBigEndian_bigIntToBytes] at hstep2
  refine ⟨_, _, _, _, _, srpStep1_eq ha, hstep2, Base64.decode_encode _, Base64.decode_encode _,
    srpServerVerify_eq_some.mpr ⟨?_, ?_, rfl⟩, ?_, ?_⟩
  · rw [ofBigEndian_bigIntToBytes]
    exact modPow_G_mod_ne_zero _
  · rw [ofBigEndian_bigIntToBytes, ← hkey]
  · apply verifyServerProof_eq_ok.mpr
    rw [fromBase64_encode, ofBigEndian_bigIntToBytes, ← hkey]
  · rw [ofBigEndian_bigIntToBytes, ← hkey]
    rfl

theorem handshake_agrees_alice : ∃ step1 step2 clientPublicA clientProofM1 result,
    srpStep1 [7] = .ok step1 ∧
    srpStep2 lastByteSha256.digest "alice@example.com" "pw\x05" (Base64.encode [9])
      (Base64.encode (srpServerInit lastByteSha256.digest (bigIntToBytes (modPow G
        (privateKey lastByteSha256.digest [9] "alice@example.com" "pw\x05") N)) [3]))
      step1.privateSession = .ok step2 ∧
    Base64.decode step1.clientPublicA = some clientPublicA ∧
    Base64.decode step2.clientProofM1 = some clientProofM1 ∧
    srpServerVerify lastByteSha256.digest (bigIntToBytes (modPow G
      (privateKey lastByteSha256.digest [9] "alice@example.com" "pw\x05") N)) [3] clientPublicA
      clientProofM1 = some result ∧
    step2.verifyServerProof (Base64.encode result.serverProofM2) = .ok () ∧
    step2.sessionKey = result.sessionKey := by
  refine handshake_agrees (List.cons_ne_nil _ _)
    (generateSrpRegistration_eq lastByteSha256.digest_ne_nil _ _ _) (Base64.decode_encode _)
    (Base64.decode_encode _) [3] ?_
  rw [srpServerInit, lastByteSha256_publicEphemeral]
  decide

/-- Different texts with one digest. -/
def Collides (hash : Bytes → Bytes) (x y : Bytes) : Prop := x ≠ y ∧ hash x = hash y

/-- Texts with one digest are one text, or collide. -/
theorem eq_or_collides {hash : Bytes → Bytes} {x y : Bytes} (h : hash x = hash y) :
    x = y ∨ Collides hash x y := by
  by_cases hxy : x = y
  · exact Or.inl hxy
  · exact Or.inr ⟨hxy, h⟩

/-- The second round of a client after its first. -/
theorem srpStep2_of_srpStep1 {step1 : SrpStep1Result} {saltText bText : String} {salt b : Bytes}
    (h1 : srpStep1 aBytes = .ok step1) (hsalt : fromBase64 saltText = .ok salt)
    (hb : fromBase64 bText = .ok b) (hne : b ≠ []) :
    srpStep2 sha.digest email masterPassword saltText bText step1.privateSession =
      if ofBigEndian b % N = 0 then .error "Invalid server public ephemeral B"
      else .ok (step2Result sha.digest (privateKey sha.digest salt email masterPassword)
        (ofBigEndian aBytes) (modPow G (ofBigEndian aBytes) N) (ofBigEndian b)) := by
  have ha : aBytes ≠ [] := by
    rintro rfl
    cases h1
  rw [srpStep1_eq ha, Except.ok.injEq] at h1
  subst h1
  exact srpStep2_eq sha.digest_ne_nil email masterPassword hsalt hb hne _ _

/-- What a client's second round has from its first and from the texts that it was given. -/
theorem exists_of_srpStep2 {step1 : SrpStep1Result} {step2 : SrpStep2Result}
    {saltText bText : String} (h1 : srpStep1 aBytes = .ok step1)
    (h2 : srpStep2 sha.digest email masterPassword saltText bText step1.privateSession =
      .ok step2) :
    ∃ salt b, fromBase64 saltText = .ok salt ∧ fromBase64 bText = .ok b ∧
      ofBigEndian b % N ≠ 0 ∧
      step1.clientPublicA = Base64.encode (bigIntToBytes (modPow G (ofBigEndian aBytes) N)) ∧
      step2 = step2Result sha.digest (privateKey sha.digest salt email masterPassword)
        (ofBigEndian aBytes) (modPow G (ofBigEndian aBytes) N) (ofBigEndian b) := by
  have hsha := sha.digest_ne_nil
  have ha : aBytes ≠ [] := by
    rintro rfl
    cases h1
  have hpublic := h1
  rw [srpStep1_eq ha, Except.ok.injEq] at hpublic
  obtain ⟨salt, hsalt⟩ : ∃ salt, fromBase64 saltText = .ok salt := by
    cases hsalt : fromBase64 saltText with
    | ok salt => exact ⟨salt, rfl⟩
    | error e =>
      rw [srpStep2, computeK_eq hsha, base64ToHex, hsalt] at h2
      cases h2
  obtain ⟨b, hb⟩ : ∃ b, fromBase64 bText = .ok b := by
    cases hb : fromBase64 bText with
    | ok b => exact ⟨b, rfl⟩
    | error e =>
      rw [srpStep2, computeK_eq hsha, base64ToHex, base64ToHex, hsalt, hb] at h2
      cases h2
  have hne : b ≠ [] := by
    rintro rfl
    rw [srpStep2, computeK_eq hsha, base64ToHex, base64ToHex, hsalt, hb] at h2
    cases h2
  rw [srpStep2_of_srpStep1 h1 hsalt hb hne] at h2
  split at h2
  · cases h2
  · rename_i hzero
    rw [Except.ok.injEq] at h2
    exact ⟨salt, b, hsalt, hb, hzero, by rw [← hpublic], h2.symm⟩

/-- What an accepted proof of a client says about the two sides: the client has seen `A` and `B`,
and the server has received `A'` and sent `B'`. -/
structure ProofBinds (hash : Bytes → Bytes) (A B A' B' : Nat) (step2 : SrpStep2Result)
    (result : VerifyResult) : Prop where
  not_multiple : A' % N ≠ 0
  same_transcript :
    transcript A B step2.sessionKey = transcript A' B' result.sessionKey ∨
      Collides hash (transcript A B step2.sessionKey) (transcript A' B' result.sessionKey)
  same_key : A' = A → B' = B →
    (result.sessionKey = step2.sessionKey ∧
      step2.verifyServerProof (Base64.encode result.serverProofM2) = .ok ()) ∨
    Collides hash (transcript A B step2.sessionKey) (transcript A B result.sessionKey)

/-- Proofs bind what was seen: against any texts, a client goes on only with a public value of
the server that is no multiple of the modulus, and accepts one proof. A server that accepts its
proof, whatever its verifier is, has hashed the same text, or two texts with one digest are
known. When both have seen the same public values, they hold one session key. -/
theorem proofs_bind {step1 : SrpStep1Result} {step2 : SrpStep2Result} {saltText bText : String}
    (h1 : srpStep1 aBytes = .ok step1)
    (h2 : srpStep2 sha.digest email masterPassword saltText bText step1.privateSession =
      .ok step2) :
    ∃ clientPublicA b clientProofM1, Base64.decode step1.clientPublicA = some clientPublicA ∧
      fromBase64 bText = .ok b ∧ Base64.decode step2.clientProofM1 = some clientProofM1 ∧
      ofBigEndian b % N ≠ 0 ∧
      (∀ text, step2.verifyServerProof text = .ok () ↔ fromBase64 text =
        .ok (sha.digest (clientPublicA ++ clientProofM1 ++ step2.sessionKey))) ∧
      ∀ verifier secret received result,
        srpServerVerify sha.digest verifier secret received clientProofM1 = some result →
        ProofBinds sha.digest (ofBigEndian clientPublicA) (ofBigEndian b) (ofBigEndian received)
          (ofBigEndian (srpServerInit sha.digest verifier secret)) step2 result := by
  obtain ⟨salt, b, -, hb, hzero, hA, hstep2⟩ := exists_of_srpStep2 h1 h2
  subst hstep2
  refine ⟨_, b, _, by rw [hA, Base64.decode_encode], hb, Base64.decode_encode _, hzero, ?_, ?_⟩
  · intro text
    exact verifyServerProof_eq_ok
  · intro verifier secret received result hresult
    obtain ⟨hmultiple, hproof, hresult⟩ := srpServerVerify_eq_some.mp hresult
    rw [ofBigEndian_bigIntToBytes, srpServerInit, ofBigEndian_bigIntToBytes]
    subst hresult
    refine ⟨hmultiple, eq_or_collides hproof, ?_⟩
    intro hA' hB'
    rw [hA', hB'] at hproof
    obtain hsame | hcollide := eq_or_collides hproof
    · left
      have hkey := (List.append_right_inj _).mp hsame
      refine ⟨by rw [hA']; exact hkey.symm, verifyServerProof_eq_ok.mpr ?_⟩
      rw [fromBase64_encode, hA', ← hkey]
    · right
      rw [hA']
      exact hcollide

theorem proofs_bind_alice : ∃ (step1 : SrpStep1Result) (step2 : SrpStep2Result)
    (clientPublicA clientProofM1 : Bytes),
    srpStep2 lastByteSha256.digest "alice@example.com" "pw\x05" (Base64.encode [9])
      (Base64.encode [72]) step1.privateSession = .ok step2 ∧
    Base64.decode step1.clientPublicA = some clientPublicA ∧
    Base64.decode step2.clientProofM1 = some clientProofM1 ∧
    (∀ text, step2.verifyServerProof text = .ok () ↔ fromBase64 text =
      .ok (lastByteSha256.digest (clientPublicA ++ clientProofM1 ++ step2.sessionKey))) ∧
    ∀ verifier secret received result,
      srpServerVerify lastByteSha256.digest verifier secret received clientProofM1 = some result →
      ProofBinds lastByteSha256.digest (ofBigEndian clientPublicA) 72 (ofBigEndian received)
        (ofBigEndian (srpServerInit lastByteSha256.digest verifier secret)) step2 result := by
  obtain ⟨step1, h1⟩ : ∃ step1, srpStep1 [7] = .ok step1 :=
    ⟨_, srpStep1_eq (List.cons_ne_nil 7 [])⟩
  obtain ⟨step2, h2⟩ : ∃ step2, srpStep2 lastByteSha256.digest "alice@example.com" "pw\x05"
      (Base64.encode [9]) (Base64.encode [72]) step1.privateSession = .ok step2 := by
    rw [srpStep2_of_srpStep1 h1 (fromBase64_encode [9]) (fromBase64_encode [72])
      (List.cons_ne_nil _ _), if_neg (by decide)]
    exact ⟨_, rfl⟩
  obtain ⟨clientPublicA, b, clientProofM1, hA, hb, hM1, -, haccepts, hbinds⟩ := proofs_bind h1 h2
  rw [fromBase64_encode, Except.ok.injEq] at hb
  subst hb
  exact ⟨step1, step2, clientPublicA, clientProofM1, h2, hA, hM1, haccepts, hbinds⟩

end Agreement

end Nopass
