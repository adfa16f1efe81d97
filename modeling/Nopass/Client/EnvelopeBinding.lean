import Nopass.Client.Envelope

/-!
# What an envelope is bound to

The associated data is a label, the format version, the owner scope in one or seventeen
bytes, the sixteen bytes of the item, the type behind its length and the revision. Two
bindings share it only when all of these agree. With ideal encryption an envelope opens
as exactly the item, and at exactly the revision, that it was made for.
-/

namespace Nopass

/-- Scopes of one kind, and of one organization. -/
def SameScope : ItemScope → ItemScope → Prop
  | .personal, .personal => True
  | .org orgId, .org orgId' => uuidBytes orgId = uuidBytes orgId'
  | _, _ => False

/-- Bindings to one item: ids may be spelled differently. -/
structure SameBinding (binding binding' : ItemBinding) : Prop where
  scope : SameScope binding.scope binding'.scope
  itemId : uuidBytes binding.itemId = uuidBytes binding'.itemId
  itemType : binding.itemType = binding'.itemType

/-- A binding whose ids are UUIDs and whose type label is short enough. -/
structure ItemBinding.WellFormed (binding : ItemBinding) : Prop where
  scope : ∀ orgId, binding.scope = .org orgId → (uuidBytes orgId).isSome
  itemId : (uuidBytes binding.itemId).isSome
  itemType : (utf8 binding.itemType).length ≤ 255

/-- One byte for each pair of digits. -/
theorem length_hexBytes {hex : List Char} {bytes : Bytes} (h : hexBytes hex = some bytes) :
    2 * bytes.length = hex.length := by
  induction hex using hexBytes.induct generalizing bytes with
  | case1 =>
    cases h
    rfl
  | case2 => cases h
  | case3 a b rest ih =>
    obtain ⟨x, _, h⟩ := Option.bind_eq_some_iff.mp h
    obtain ⟨y, _, h⟩ := Option.bind_eq_some_iff.mp h
    obtain ⟨bytes', hbytes, h⟩ := Option.bind_eq_some_iff.mp h
    cases h
    have := ih hbytes
    rw [List.length_cons, List.length_cons, List.length_cons]
    omega

/-- A UUID has sixteen bytes. -/
theorem length_uuidBytes {uuid : String} {bytes : Bytes} (h : uuidBytes uuid = some bytes) :
    bytes.length = 16 := by
  rw [uuidBytes] at h
  obtain ⟨hlen, h⟩ := Option.ite_none_right_eq_some.mp h
  have := length_hexBytes h
  omega

/-- What a scope is written as. -/
theorem scopeBytes_eq_ok {scope : ItemScope} {bytes : Bytes} :
    scope.bytes = .ok bytes ↔ (scope = .personal ∧ bytes = [0]) ∨
      ∃ orgId org, scope = .org orgId ∧ uuidBytes orgId = some org ∧ bytes = 1 :: org := by
  cases scope with
  | personal =>
    rw [ItemScope.bytes]
    constructor
    · intro h
      cases h
      exact .inl ⟨rfl, rfl⟩
    · rintro (⟨-, rfl⟩ | ⟨_, _, h, -⟩)
      · rfl
      · cases h
  | org orgId =>
    rw [ItemScope.bytes, client_bind_eq_ok]
    constructor
    · rintro ⟨org, horg, h⟩
      cases h
      exact .inr ⟨orgId, org, rfl, client_orThrow_eq_ok.mp horg, rfl⟩
    · rintro (⟨h, -⟩ | ⟨_, org, h, horg, rfl⟩)
      · cases h
      · cases h
        exact ⟨org, client_orThrow_eq_ok.mpr horg, rfl⟩

/-- The associated data of a binding at a revision, part by part. -/
theorem itemAad_ok_iff {binding : ItemBinding} {revision : Nat} {ad : Bytes} :
    itemAad binding revision = .ok ad ↔ (utf8 binding.itemType).length ≤ 255 ∧
      ∃ scope item, binding.scope.bytes = .ok scope ∧ uuidBytes binding.itemId = some item ∧
        revision ≤ maxSafeInteger ∧
        ad = utf8 "nopwd-item" ++ [0, 2] ++ scope ++ item ++
          [UInt8.ofNat (utf8 binding.itemType).length] ++ utf8 binding.itemType ++
          bigEndian 8 revision := by
  simp only [itemAad, u64be, client_bind_eq_ok, client_throwUnless_eq_ok, client_orThrow_eq_ok,
    decide_eq_true_eq]
  constructor
  · rintro ⟨_, hlen, scope, hscope, item, hitem, rev, ⟨_, hrev, heq⟩, h⟩
    cases heq
    cases h
    exact ⟨hlen, scope, item, hscope, hitem, hrev, rfl⟩
  · rintro ⟨hlen, scope, item, hscope, hitem, hrev, rfl⟩
    exact ⟨(), hlen, scope, hscope, item, hitem, _, ⟨(), hrev, rfl⟩, rfl⟩

/-- A well-formed binding has associated data at every revision. -/
theorem exists_itemAad {binding : ItemBinding} (h : binding.WellFormed) {revision : Nat}
    (hrev : revision ≤ maxSafeInteger) : ∃ ad, itemAad binding revision = .ok ad := by
  obtain ⟨item, hitem⟩ := Option.isSome_iff_exists.mp h.itemId
  have hscope : ∃ bytes, binding.scope.bytes = .ok bytes := by
    cases hs : binding.scope with
    | personal => exact ⟨[0], rfl⟩
    | org orgId =>
      obtain ⟨org, horg⟩ := Option.isSome_iff_exists.mp (h.scope orgId hs)
      exact ⟨1 :: org, scopeBytes_eq_ok.mpr (.inr ⟨orgId, org, rfl, horg, rfl⟩)⟩
  obtain ⟨scope, hscope⟩ := hscope
  exact ⟨_, itemAad_ok_iff.mpr ⟨h.itemType, scope, item, hscope, hitem, hrev, rfl⟩⟩

/-- A scope and what follows it are read back from the bytes. -/
theorem scopeBytes_append_inj {scope scope' : ItemScope} {bytes bytes' rest rest' : Bytes}
    (h : scope.bytes = .ok bytes) (h' : scope'.bytes = .ok bytes')
    (heq : bytes ++ rest = bytes' ++ rest') : SameScope scope scope' ∧ rest = rest' := by
  rcases scopeBytes_eq_ok.mp h with ⟨rfl, rfl⟩ | ⟨orgId, org, rfl, horg, rfl⟩
  · rcases scopeBytes_eq_ok.mp h' with ⟨rfl, rfl⟩ | ⟨orgId', org', rfl, horg', rfl⟩
    · exact ⟨trivial, (List.cons.inj heq).2⟩
    · cases (List.cons.inj heq).1
  · rcases scopeBytes_eq_ok.mp h' with ⟨rfl, rfl⟩ | ⟨orgId', org', rfl, horg', rfl⟩
    · cases (List.cons.inj heq).1
    · have hlen : org.length = org'.length :=
        (length_uuidBytes horg).trans (length_uuidBytes horg').symm
      obtain ⟨rfl, hrest⟩ := List.append_inj (List.cons.inj heq).2 hlen
      exact ⟨horg.trans horg'.symm, hrest⟩

/-- Associated data names one item at one revision. -/
theorem itemAad_inj {binding binding' : ItemBinding} {revision revision' : Nat} {ad : Bytes}
    (h : itemAad binding revision = .ok ad) (h' : itemAad binding' revision' = .ok ad) :
    SameBinding binding binding' ∧ revision = revision' := by
  obtain ⟨hlen, scope, item, hscope, hitem, hrev, had⟩ := itemAad_ok_iff.mp h
  obtain ⟨hlen', scope', item', hscope', hitem', hrev', had'⟩ := itemAad_ok_iff.mp h'
  have heq := had.symm.trans had'
  simp only [List.append_assoc, List.singleton_append] at heq
  have hlabel := List.append_cancel_left (List.append_cancel_left heq)
  obtain ⟨hs, hids⟩ := scopeBytes_append_inj hscope hscope' hlabel
  have hitems : item.length = item'.length :=
    (length_uuidBytes hitem).trans (length_uuidBytes hitem').symm
  obtain ⟨hid, hend⟩ := List.append_inj hids hitems
  obtain ⟨hlens, hend⟩ := List.cons.inj hend
  have htype : (utf8 binding.itemType).length = (utf8 binding'.itemType).length := by
    have hnat := congrArg UInt8.toNat hlens
    rw [UInt8.toNat_ofNat', UInt8.toNat_ofNat'] at hnat
    omega
  obtain ⟨hutf8, hend⟩ := List.append_inj hend htype
  have hbound : maxSafeInteger < 256 ^ 8 := by decide
  exact ⟨⟨hs, hitem.trans (hid ▸ hitem'.symm), utf8_injective hutf8⟩,
    bigEndian_inj (by omega) (by omega) hend⟩

/-- One call of `encryptItemV2`. -/
structure EncryptCall (P : Type) where
  plaintext : P
  binding : ItemBinding
  revision : Nat
  key : CryptoKey
  iv : Bytes

section Calls

variable {P : Type} {c : ItemCrypto P}

/-- What a call returns. -/
def EncryptCall.run (c : ItemCrypto P) (call : EncryptCall P) : Client EncryptedBlob :=
  encryptItemV2 c call.plaintext call.binding call.revision call.key call.iv

/-- What a call encrypts, when it comes to that. -/
def EncryptCall.query (c : ItemCrypto P) (call : EncryptCall P) : Option Aead.Query :=
  match call.key, itemAad call.binding call.revision with
  | .aesGcm key, .ok ad =>
    if c.typeOf call.plaintext = some call.binding.itemType then
      some ⟨key, call.iv, ad, c.serialize call.plaintext⟩
    else none
  | _, _ => none

/-- What was encrypted with AES-GCM: by these calls and by others. -/
def Sealed (c : ItemCrypto P) (calls : List (EncryptCall P)) (others : Aead.Query → Prop)
    (q : Aead.Query) : Prop :=
  others q ∨ ∃ call ∈ calls, call.query c = some q

/-- What a call encrypts under its key. -/
theorem EncryptCall.query_eq_some {call : EncryptCall P} {q : Aead.Query} :
    call.query c = some q ↔ call.key = .aesGcm q.key ∧
      itemAad call.binding call.revision = .ok q.ad ∧ call.iv = q.iv ∧
      c.serialize call.plaintext = q.text ∧
      c.typeOf call.plaintext = some call.binding.itemType := by
  rw [EncryptCall.query]
  split
  · rename_i key ad hkey had
    rw [Option.ite_none_right_eq_some, hkey, had]
    constructor
    · rintro ⟨htype, h⟩
      cases h
      exact ⟨rfl, rfl, rfl, rfl, htype⟩
    · rintro ⟨hk, ha, hiv, htext, htype⟩
      cases hk
      cases ha
      rw [hiv, htext]
      exact ⟨htype, rfl⟩
  · rename_i hno
    constructor
    · intro h
      cases h
    · rintro ⟨hk, ha, -⟩
      exact (hno _ _ hk ha).elim

/-- What a call that encrypts returns. -/
theorem EncryptCall.run_eq_ok {call : EncryptCall P} {made : EncryptedBlob} :
    call.run c = .ok made ↔ ∃ q, call.query c = some q ∧
      made = { blob := Base64.encode (2 :: (bigEndian 8 call.revision ++
                 c.aes.encrypt q.key q.iv q.ad q.text)),
               blobIv := Base64.encode q.iv, blobMac := "" } := by
  rw [EncryptCall.run]
  simp only [encryptItemV2, client_bind_eq_ok, client_throwUnless_eq_ok, decide_eq_true_eq]
  constructor
  · rintro ⟨_, htype, ad, had, ciphertext, hseal, header, hheader, h⟩
    cases h
    obtain ⟨_, _, _, _, _, hrev, _⟩ := itemAad_ok_iff.mp had
    cases hkey : call.key with
    | hmac bytes =>
      rw [hkey] at hseal
      cases hseal
    | aesGcm key =>
      rw [hkey] at hseal
      cases hseal
      rw [u64be, client_bind_eq_ok] at hheader
      obtain ⟨_, _, hheader⟩ := hheader
      cases hheader
      exact ⟨⟨key, call.iv, ad, c.serialize call.plaintext⟩,
        EncryptCall.query_eq_some.mpr ⟨hkey, had, rfl, rfl, htype⟩, rfl⟩
  · rintro ⟨⟨key, iv, ad, text⟩, hq, rfl⟩
    obtain ⟨hkey, had, hiv, htext, htype⟩ := EncryptCall.query_eq_some.mp hq
    obtain ⟨_, _, _, _, _, hrev, _⟩ := itemAad_ok_iff.mp had
    dsimp only at hkey hiv htext had ⊢
    subst hiv htext
    have hseal : c.seal call.key call.iv ad (c.serialize call.plaintext) =
        .ok (c.aes.encrypt key call.iv ad (c.serialize call.plaintext)) := by
      rw [hkey, ItemCrypto.seal]
    have hheader : u64be call.revision = .ok (bigEndian 8 call.revision) := by
      rw [u64be, client_bind_eq_ok]
      exact ⟨(), client_throwUnless_eq_ok.mpr (decide_eq_true hrev), rfl⟩
    exact ⟨(), htype, ad, had, _, hseal, _, hheader, rfl⟩

/-- What opens with AES-GCM. -/
theorem unseal_eq_ok {key : CryptoKey} {iv ad ciphertext text : Bytes} :
    c.unseal key iv ad ciphertext = .ok text ↔
      ∃ bytes, key = .aesGcm bytes ∧ c.aes.decrypt bytes iv ad ciphertext = some text := by
  cases key with
  | hmac bytes =>
    constructor
    · intro h
      cases h
    · rintro ⟨_, h, -⟩
      cases h
  | aesGcm bytes =>
    rw [ItemCrypto.unseal, client_orThrow_eq_ok]
    constructor
    · intro h
      exact ⟨bytes, rfl, h⟩
    · rintro ⟨_, h, hopen⟩
      cases h
      exact hopen

/-- The header and the ciphertext of an envelope. -/
structure IsEnvelope (blob : Bytes) (revision : Nat) (ciphertext : Bytes) : Prop where
  eq : blob = 2 :: (bigEndian 8 revision ++ ciphertext)
  ciphertext_ne_nil : ciphertext ≠ []
  revision_le : revision ≤ maxSafeInteger

/-- The checks of the header are passed by what is an envelope. -/
theorem isEnvelope_iff {blob : Bytes} {revision : Nat} {ciphertext : Bytes} :
    IsEnvelope blob revision ciphertext ↔ 9 < blob.length ∧ blob.head? = some 2 ∧
      revision = ofBigEndian ((blob.drop 1).take 8) ∧ revision ≤ maxSafeInteger ∧
      ciphertext = blob.drop 9 := by
  constructor
  · rintro ⟨rfl, hne, hle⟩
    have hlen := List.length_pos_of_ne_nil hne
    have hbound : maxSafeInteger < 256 ^ 8 := by decide
    have htake : (bigEndian 8 revision ++ ciphertext).take 8 = bigEndian 8 revision :=
      List.take_left' (length_bigEndian 8 revision)
    have hdrop : (bigEndian 8 revision ++ ciphertext).drop 8 = ciphertext :=
      List.drop_left' (length_bigEndian 8 revision)
    refine ⟨?_, rfl, ?_, hle, ?_⟩
    · rw [List.length_cons, List.length_append, length_bigEndian]
      omega
    · rw [List.drop_succ_cons, List.drop_zero, htake, ofBigEndian_bigEndian (by omega)]
    · rw [List.drop_succ_cons, hdrop]
  · rintro ⟨hlen, hhead, rfl, hle, rfl⟩
    cases blob with
    | nil => cases hhead
    | cons b rest =>
      cases hhead
      rw [List.length_cons] at hlen
      have htake : (rest.take 8).length = 8 := by
        rw [List.length_take]
        omega
      have hread := bigEndian_ofBigEndian (rest.take 8)
      rw [htake] at hread
      refine ⟨?_, ?_, hle⟩
      · rw [List.drop_succ_cons, List.drop_zero, List.drop_succ_cons, hread,
          List.take_append_drop]
      · rw [List.drop_succ_cons, ← List.length_pos_iff_ne_nil, List.length_drop]
        omega

/-- When an envelope of the current form opens, and as what. -/
theorem decryptItemV2_ok_iff {encrypted : EncryptedBlob} {binding : ItemBinding} {key : CryptoKey}
    {result : DecryptedItem P} : decryptItemV2 c encrypted binding key = .ok result ↔
      ∃ blob iv ciphertext ad text bytes plaintext, Base64.atob encrypted.blob = some blob ∧
        Base64.atob encrypted.blobIv = some iv ∧ IsEnvelope blob result.revision ciphertext ∧
        itemAad binding result.revision = .ok ad ∧ key = .aesGcm bytes ∧
        c.aes.decrypt bytes iv ad ciphertext = some text ∧ c.parse text = some plaintext ∧
        result = { plaintext := plaintext, revision := result.revision, format := .v2 } := by
  have hmap {x : Client Bytes} {f : String → String} {text : Bytes} :
      x.mapError f = .ok text ↔ x = .ok text := by
    cases x with
    | error e => simp [Except.mapError]
    | ok a => simp [Except.mapError]
  simp only [decryptItemV2, decodeBytes, client_bind_eq_ok, client_throwUnless_eq_ok,
    client_orThrow_eq_ok, hmap, unseal_eq_ok, decide_eq_true_eq, Bool.and_eq_true]
  constructor
  · rintro ⟨blob, hblob, _, ⟨hlen, hhead⟩, _, hle, iv, hiv, ad, had, text, ⟨bytes, hkey, hopen⟩,
      plaintext, hparse, h⟩
    cases h
    exact ⟨blob, iv, _, ad, text, bytes, plaintext, hblob, hiv,
      isEnvelope_iff.mpr ⟨hlen, hhead, rfl, hle, rfl⟩, had, hkey, hopen, hparse, rfl⟩
  · rintro ⟨blob, iv, ciphertext, ad, text, bytes, plaintext, hblob, hiv, henvelope, had, hkey,
      hopen, hparse, hresult⟩
    obtain ⟨hlen, hhead, hrev, hle, rfl⟩ := isEnvelope_iff.mp henvelope
    rw [hrev] at had hle
    refine ⟨blob, hblob, (), ⟨hlen, hhead⟩, (), hle, iv, hiv, ad, had, text, ⟨bytes, hkey, hopen⟩,
      plaintext, hparse, ?_⟩
    rw [hresult, hrev]
    rfl

/-- With a correct cipher an envelope opens as what it was made of. -/
theorem openEnvelope_encryptItemV2 (hc : c.aes.Correct)
    (hjson : ∀ plaintext, c.parse (c.serialize plaintext) = some plaintext) {plaintext : P}
    {binding : ItemBinding} {revision : Nat} {keys : VaultKeys} {iv : Bytes}
    {encrypted : EncryptedBlob}
    (h : encryptItemV2 c plaintext binding revision keys.vaultEncKey iv = .ok encrypted) :
    openEnvelope c encrypted binding keys =
      .ok { plaintext := plaintext, revision := revision, format := .v2 } := by
  have hrun : (EncryptCall.mk plaintext binding revision keys.vaultEncKey iv).run c =
      .ok encrypted := h
  obtain ⟨q, hquery, rfl⟩ := EncryptCall.run_eq_ok.mp hrun
  obtain ⟨hkey, had, -, htext, -⟩ := EncryptCall.query_eq_some.mp hquery
  obtain ⟨_, _, _, _, _, hrev, _⟩ := itemAad_ok_iff.mp had
  rw [openEnvelope, if_neg (by simp [isLegacyItemBlob]), decryptItemV2_ok_iff]
  refine ⟨_, q.iv, _, q.ad, q.text, q.key, plaintext, Base64.atob_encode _,
    Base64.atob_encode _, ⟨rfl, hc.encrypt_ne_nil _ _ _ _, hrev⟩, had, hkey,
    hc.decrypt_encrypt _ _ _ _, ?_, rfl⟩
  rw [← htext]
  exact hjson plaintext

section Ideal

variable {calls : List (EncryptCall P)} {others : Aead.Query → Prop} {keys : VaultKeys}

/-- Associated data is never empty. -/
theorem itemAad_ne_nil {binding : ItemBinding} {revision : Nat} {ad : Bytes}
    (h : itemAad binding revision = .ok ad) : ad ≠ [] := by
  obtain ⟨_, scope, item, _, _, _, rfl⟩ := itemAad_ok_iff.mp h
  intro hnil
  have hlen := congrArg List.length hnil
  rw [List.length_append, length_bigEndian, List.length_nil] at hlen
  omega

/-- What an envelope of the current form held was put there by a call for this item. -/
theorem exists_call_of_opens (hideal : c.aes.Ideal (Sealed c calls others))
    (hothers : ∀ q, others q → keys.vaultEncKey = .aesGcm q.key → q.ad = [])
    (hjson : ∀ plaintext, c.parse (c.serialize plaintext) = some plaintext)
    {encrypted : EncryptedBlob} {binding : ItemBinding} {result : DecryptedItem P}
    (h : decryptItemV2 c encrypted binding keys.vaultEncKey = .ok result) :
    ∃ call ∈ calls, call.key = keys.vaultEncKey ∧ SameBinding call.binding binding ∧
      (∃ made, call.run c = .ok made ∧
        Base64.atob made.blob = Base64.atob encrypted.blob ∧
        Base64.atob made.blobIv = Base64.atob encrypted.blobIv) ∧
      result = { plaintext := call.plaintext, revision := call.revision, format := .v2 } := by
  obtain ⟨blob, iv, ciphertext, ad, text, bytes, plaintext, hblob, hiv, henvelope, had, hkey, hopen,
    hparse, hresult⟩ := decryptItemV2_ok_iff.mp h
  obtain ⟨hsealed, hmade⟩ := (hideal.decrypt_iff bytes iv ad ciphertext text).mp hopen
  rcases hsealed with hother | ⟨call, hcall, hquery⟩
  · exact (itemAad_ne_nil had (hothers _ hother hkey)).elim
  · obtain ⟨hcallKey, hcallAd, -, htext, -⟩ := EncryptCall.query_eq_some.mp hquery
    obtain ⟨hsame, hrev⟩ := itemAad_inj hcallAd had
    have hplaintext : plaintext = call.plaintext := by
      have hread := hjson call.plaintext
      rw [htext, hparse] at hread
      exact Option.some.inj hread
    refine ⟨call, hcall, hcallKey.trans hkey.symm, hsame,
      ⟨_, EncryptCall.run_eq_ok.mpr ⟨_, hquery, rfl⟩, ?_, ?_⟩, ?_⟩
    · rw [Base64.atob_encode, hblob, henvelope.eq, hmade, hrev]
    · rw [Base64.atob_encode, hiv]
    · rw [hresult, hplaintext, hrev]

/-- What a call returns opens as what the call was given. -/
theorem opens_of_call (hideal : c.aes.Ideal (Sealed c calls others))
    (hjson : ∀ plaintext, c.parse (c.serialize plaintext) = some plaintext)
    {call : EncryptCall P} (hcall : call ∈ calls) {made : EncryptedBlob}
    (h : call.run c = .ok made) : decryptItemV2 c made call.binding call.key =
      .ok { plaintext := call.plaintext, revision := call.revision, format := .v2 } := by
  obtain ⟨q, hquery, rfl⟩ := EncryptCall.run_eq_ok.mp h
  obtain ⟨hkey, had, -, htext, -⟩ := EncryptCall.query_eq_some.mp hquery
  obtain ⟨_, _, _, _, _, hrev, _⟩ := itemAad_ok_iff.mp had
  rw [decryptItemV2_ok_iff]
  refine ⟨_, q.iv, _, q.ad, q.text, q.key, call.plaintext, Base64.atob_encode _,
    Base64.atob_encode _, ⟨rfl, hideal.encrypt_ne_nil _ _ _ _, hrev⟩, had, hkey, ?_, ?_, rfl⟩
  · rw [hideal.decrypt_iff]
    exact ⟨.inr ⟨call, hcall, hquery⟩, rfl⟩
  · rw [← htext]
    exact hjson call.plaintext

end Ideal

end Calls

/-- A note that one call encrypts at revision 7. -/
private def memoCall : EncryptCall Bytes where
  plaintext := [65]
  binding := { scope := .personal, itemId := "00000000-0000-0000-0000-00000000000a",
               itemType := "note" }
  revision := 7
  key := .aesGcm [1]
  iv := [3]

/-- What the call encrypts. -/
private def memoQuery : Aead.Query where
  key := [1]
  iv := [3]
  ad := ((itemAad memoCall.binding 7).toOption).getD []
  text := [65]

/-- Encryption of notes that opens what the call encrypted. -/
private def memoCrypto : ItemCrypto Bytes where
  aes := Aead.logged [memoQuery]
  hmacSign key message := key ++ message
  typeOf _ := some "note"
  serialize := id
  parse := some

private theorem memoCrypto_ideal :
    memoCrypto.aes.Ideal (Sealed memoCrypto [memoCall] fun _ => False) := by
  have hquery : memoCall.query memoCrypto = some memoQuery := by decide
  have hsealed : Sealed memoCrypto [memoCall] (fun _ => False) = (· ∈ [memoQuery]) := by
    funext q
    apply propext
    simp [Sealed, hquery, eq_comm]
  rw [hsealed]
  exact Aead.logged_ideal [memoQuery]

end Nopass
