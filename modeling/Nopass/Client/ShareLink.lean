import Nopass.Client.Rotations
import Nopass.Core.Text.UrlText
import Nopass.Server.Shares

/-!
# Share links

The owner encrypts one item under a fresh key and uploads the ciphertext. The key stands in
the fragment of the link, which browsers send to no server. The page behind the link takes
the key out of the address bar, asks for the share and opens it.
-/

namespace Nopass

open ReadCommitted Shares Throttle

/-- `ShareKey`: a key, and its text in a link. -/
structure ShareKey where
  key : CryptoKey
  keyB64url : JsText
  deriving DecidableEq

/-- `generateShareKey`, with the random bytes. -/
def generateShareKey (raw : Bytes) : ShareKey where
  key := .aesGcm raw
  keyB64url := Base64.toUrlText raw

/-- `importShareKey`. -/
def importShareKey (keyB64url : JsText) : Client CryptoKey := do
  let raw ← orThrow "InvalidCharacterError" (Base64.ofUrlText keyB64url)
  throwUnless (decide (raw.length = 32)) "share key has unexpected length"
  pure (.aesGcm raw)

/-- `encryptBytes`, with the random IV. -/
def encryptBytes (aes : Aead) (plaintext : Bytes) (key : CryptoKey) (iv : Bytes) :
    Client EncryptedBlob :=
  match key with
  | .aesGcm bytes => .ok { blob := Base64.encode (aes.encrypt bytes iv [] plaintext)
                           blobIv := Base64.encode iv
                           blobMac := "" }
  | .hmac _ => .error "InvalidAccessError"

section Functions

variable {P : Type} (c : ItemCrypto P)

/-- `encryptSharePayload`, with the random IV. -/
def encryptSharePayload (item : P) (key : CryptoKey) (iv : Bytes) : Client EncryptedBlob :=
  encryptBytes c.aes (c.serialize item) key iv

/-- `decryptSharePayload`. -/
def decryptSharePayload (blob : EncryptedBlob) (key : CryptoKey) : Client P := do
  let bytes ← decryptBytes c.aes blob key
  orThrow "SyntaxError" (c.parse bytes)

/-- What the dialog draws at random. -/
structure ShareDraws where
  raw : Bytes
  payloadIv : Bytes
  labelIv : Bytes

/-- `handleCreate`, up to the upload: the body and the key of the link. -/
def handleCreate (plaintext : P) (name : JsText) (vaultEncKey : CryptoKey)
    (maxViews expiresInHours : Int) (draws : ShareDraws) :
    Client (CreateShareRequest × ShareKey) := do
  let shareKey := generateShareKey draws.raw
  let payload ← encryptSharePayload c plaintext shareKey.key draws.payloadIv
  let label ← encryptBytes c.aes (encodeUtf8 name) vaultEncKey draws.labelIv
  pure ({ blob := payload.blob, blobIv := payload.blobIv, labelBlob := label.blob,
          labelIv := label.blobIv, maxViews := maxViews, expiresInHours := expiresInHours },
        shareKey)

/-- The link, after the origin. -/
def shareLink (shareId : Uuid) (keyB64url : JsText) : JsText :=
  js "/s/" ++ js shareId.text ++ UrlParts.number :: (js "k" ++ 0x3d :: keyB64url)

/-- `takeShareKey`: the key, and the address bar afterwards. -/
def takeShareKey (location : UrlParts) : Option JsText × UrlParts :=
  match SearchParams.get (SearchParams.ofText (location.hash.drop 1)) (js "k") with
  | none => (none, location)
  | some [] => (none, location)
  | some key => (some key, UrlParts.ofText (location.pathname ++ location.search))

/-- `reveal`: the item, when the server answers with a share. -/
def reveal (keyB64url : Option JsText) (view : Client ViewShareResponse) : Client P := do
  let keyB64url ← orThrow
    "This link is missing its decryption key. Make sure you copied the whole URL." keyB64url
  let key ← importShareKey keyB64url
  let resp ← view
  decryptSharePayload c { blob := resp.blob, blobIv := resp.blobIv, blobMac := "" } key

end Functions

/-! ## The key in the link -/

/-- A key that was taken is no longer in the address bar. -/
theorem hash_takeShareKey {location : UrlParts} {key : JsText}
    (hlocation : UrlParts.number ∉ location.pathname ++ location.search)
    (h : (takeShareKey location).1 = some key) : (takeShareKey location).2.hash = [] := by
  unfold takeShareKey at h ⊢
  split
  · rename_i hnone
    rw [hnone] at h
    cases h
  · rename_i hempty
    rw [hempty] at h
    cases h
  · exact UrlParts.hash_ofText hlocation

/-- Hexadecimal digits end no path. -/
theorem utf16Char_hexChar {n : Nat} (h : n < 16) : ∀ u ∈ utf16Char (hexChar n),
    u ≠ UrlParts.number ∧ u ≠ UrlParts.question := by
  have key : ∀ m : Fin 16, utf16Char (hexChar m.val) = [UInt16.ofNat (hexChar m.val).toNat] ∧
      UInt16.ofNat (hexChar m.val).toNat ≠ UrlParts.number ∧
      UInt16.ofNat (hexChar m.val).toNat ≠ UrlParts.question := by
    decide
  obtain ⟨hunit, hne⟩ := key ⟨n, h⟩
  intro u hu
  rw [hunit, List.mem_singleton] at hu
  rw [hu]
  exact hne

/-- The characters of a number are hexadecimal digits. -/
theorem exists_of_mem_hexChars {k n : Nat} {ch : Char} (h : ch ∈ hexChars k n) :
    ∃ m < 16, ch = hexChar m := by
  induction k generalizing n with
  | zero => cases h
  | succ k ih =>
    rcases List.mem_append.mp h with h | h
    · exact ih h
    · exact ⟨n % 16, Nat.mod_lt n (by decide), List.mem_singleton.mp h⟩

/-- The characters of an id are its digits and dashes. -/
theorem mem_hyphenate {chars : List Char} {ch : Char} (h : ch ∈ Uuid.hyphenate chars) :
    ch ∈ chars ∨ ch = '-' := by
  simp only [Uuid.hyphenate, List.mem_append, List.mem_cons] at h
  rcases h with (((h | h | h) | h | h) | h | h) | h | h
  · exact .inl (List.mem_of_mem_take h)
  · exact .inr h
  · exact .inl (List.mem_of_mem_drop (List.mem_of_mem_take h))
  · exact .inr h
  · exact .inl (List.mem_of_mem_drop (List.mem_of_mem_take h))
  · exact .inr h
  · exact .inl (List.mem_of_mem_drop (List.mem_of_mem_take h))
  · exact .inr h
  · exact .inl (List.mem_of_mem_drop h)

/-- An id ends no path. -/
theorem plain_of_mem_uuid (id : Uuid) : ∀ u ∈ js id.text,
    u ≠ UrlParts.number ∧ u ≠ UrlParts.question := by
  intro u hu
  rw [js, Uuid.text, String.toList_ofList] at hu
  obtain ⟨ch, hch, hu⟩ := List.mem_flatMap.mp hu
  rcases mem_hyphenate hch with hch | rfl
  · obtain ⟨m, hm, rfl⟩ := exists_of_mem_hexChars hch
    exact utf16Char_hexChar hm u hu
  · rw [show utf16Char '-' = [0x2d] from rfl, List.mem_singleton] at hu
    rw [hu]
    exact ⟨by decide, by decide⟩

/-- The page that a link opens takes the key of the link, and its address bar keeps the path. -/
theorem takeShareKey_shareLink (shareId : Uuid) {raw : Bytes} (hraw : raw ≠ []) :
    takeShareKey (UrlParts.ofText (shareLink shareId (Base64.toUrlText raw))) =
      (some (Base64.toUrlText raw),
        { pathname := js "/s/" ++ js shareId.text, search := [], hash := [] }) := by
  have hpath : ∀ u ∈ js "/s/" ++ js shareId.text, u ≠ UrlParts.number ∧ u ≠ UrlParts.question := by
    intro u hu
    rcases List.mem_append.mp hu with hu | hu
    · have key : ∀ v ∈ js "/s/", v = 0x2f ∨ v = 0x73 := by
        intro v hv
        rw [show js "/s/" = [0x2f, 0x73, 0x2f] from rfl] at hv
        simpa [or_comm, or_left_comm] using hv
      rcases key u hu with rfl | rfl
      · exact ⟨by decide, by decide⟩
      · exact ⟨by decide, by decide⟩
    · exact plain_of_mem_uuid shareId u hu
  have hparts : UrlParts.ofText (shareLink shareId (Base64.toUrlText raw)) =
      { pathname := js "/s/" ++ js shareId.text, search := [],
        hash := UrlParts.number :: (js "k" ++ 0x3d :: Base64.toUrlText raw) } :=
    UrlParts.ofText_append hpath (by simp)
  have hname : ∀ u ∈ js "k", SearchParams.Plain u := by
    intro u hu
    rw [show js "k" = [0x6b] from rfl, List.mem_singleton] at hu
    rw [hu]
    exact ⟨by decide, by decide, by decide, by decide, by decide, by decide⟩
  have hvalue : ∀ u ∈ Base64.toUrlText raw, SearchParams.Plain u :=
    fun u hu => (Base64.plain_of_mem_toUrlText hu).1
  have hget := SearchParams.get_append hname hvalue
  have hbare : UrlParts.ofText (js "/s/" ++ js shareId.text ++ []) =
      { pathname := js "/s/" ++ js shareId.text, search := [], hash := [] } := by
    rw [List.append_nil]
    exact UrlParts.ofText_path hpath
  rw [takeShareKey, hparts]
  simp only [List.drop_one, List.tail_cons, hget, hbare]
  cases hkey : Base64.toUrlText raw with
  | nil => exact absurd hkey (Base64.toUrlText_ne_nil hraw)
  | cons u rest => rfl

/-! ## What a link reveals -/

section Reveal

variable {P : Type} {c : ItemCrypto P}

/-- What the dialog uploads. -/
theorem handleCreate_ok {plaintext : P} {name : JsText} {vaultEncKey : CryptoKey}
    {maxViews expiresInHours : Int} {draws : ShareDraws} {body : CreateShareRequest}
    {shareKey : ShareKey} (h : handleCreate c plaintext name vaultEncKey maxViews expiresInHours
      draws = .ok (body, shareKey)) :
    shareKey = generateShareKey draws.raw ∧ body.maxViews = maxViews ∧
      body.blob = Base64.encode (c.aes.encrypt draws.raw draws.payloadIv []
        (c.serialize plaintext)) ∧ body.blobIv = Base64.encode draws.payloadIv := by
  rw [handleCreate] at h
  obtain ⟨payload, hpayload, h⟩ := client_bind_eq_ok.mp h
  obtain ⟨label, -, h⟩ := client_bind_eq_ok.mp h
  cases hpayload
  cases h
  exact ⟨rfl, rfl, rfl, rfl⟩

/-- The row that a body becomes. -/
theorem newShare_blob {shareId userId : Uuid} {clock : Clock} {req : CreateShareRequest}
    {share : Share} (h : newShare shareId userId clock req = .ok share) :
    Base64.decode req.blob = some share.blob ∧ Base64.decode req.blobIv = some share.blobIv ∧
      share.maxViews = req.maxViews := by
  unfold newShare at h
  simp only [check_bind_ok, decodeB64_bind_ok, Bool.and_eq_true, decide_eq_true_eq] at h
  obtain ⟨-, -, blob, hblob, blobIv, hblobIv, _, -, _, -, -, -, -, -, hshare⟩ := h
  cases hshare
  exact ⟨hblob, hblobIv, rfl⟩

/-- Shares that differ in their views only. -/
theorem sealedPart_eq {r share : Share} (h : sealedPart r = sealedPart share) :
    r.id = share.id ∧ r.blob = share.blob ∧ r.blobIv = share.blobIv ∧
      r.maxViews = share.maxViews := by
  rw [sealedPart, sealedPart, Share.mk.injEq] at h
  obtain ⟨hid, -, hblob, hblobIv, -, -, hmax, -⟩ := h
  exact ⟨hid, hblob, hblobIv, hmax⟩

/-- The page opens what was encrypted under the key of the link. -/
theorem reveal_of_key (haes : c.aes.Correct)
    (hjson : ∀ plaintext, c.parse (c.serialize plaintext) = some plaintext) {plaintext : P}
    {raw iv : Bytes} (hraw : raw.length = 32) {response : ViewShareResponse}
    (hblob : response.blob = Base64.encode (c.aes.encrypt raw iv [] (c.serialize plaintext)))
    (hiv : response.blobIv = Base64.encode iv) :
    reveal c (some (Base64.toUrlText raw)) (.ok response) = .ok plaintext := by
  have himport : importShareKey (Base64.toUrlText raw) = .ok (.aesGcm raw) := by
    rw [importShareKey, Base64.ofUrlText_toUrlText]
    simp [orThrow, throwUnless, hraw, Bind.bind, Except.bind, Pure.pure, Except.pure]
  rw [reveal]
  simp only [orThrow, client_bind_eq_ok, Except.ok.injEq, exists_eq_left', himport, hblob, hiv,
    decryptSharePayload, decryptBytes, fromBase64, Base64.atob_encode, haes.decrypt_encrypt, hjson]

section Runs

variable {I : Type} [DecidableEq I] [Fintype I] {calls : I → ShareCall} {d : ShareDb}
  {s' : ShareState I} {sched : List (I × Act)} {shareId : Uuid}

/-- A share that only one call creates is shown as that call created it. -/
theorem shown_of_created (hd : Sound d)
    (h : (Shares.startCalls d calls).exec sched = some s') {i₀ i : I}
    {userId : Uuid} {clock : Clock} {req : CreateShareRequest}
    (hcreate : calls i₀ = .create shareId userId clock req)
    (hfresh : ∀ r ∈ d.shares, r.id ≠ shareId)
    (honly : ∀ j userId clock req, calls j = .create shareId userId clock req → j = i₀)
    {now : Int} {response : ViewShareResponse} (hview : calls i = .view shareId now)
    (hanswer : (s'.procs i).prog = .ret (.viewed response)) :
    ∃ share, newShare shareId userId clock req = .ok share ∧
      response.blob = Base64.encode share.blob ∧ response.blobIv = Base64.encode share.blobIv ∧
      0 ≤ response.remainingViews ∧ response.remainingViews < req.maxViews := by
  have hauthentic := viewsAuthentic_of_exec calls hd h
  obtain ⟨e, he, -, share, htag, rfl⟩ := hauthentic.answered i shareId now response hview hanswer
  obtain ⟨before, after, hsplit⟩ := List.append_of_mem he
  obtain ⟨hid, -, hcount, hleft, horigin⟩ :=
    hauthentic.revealed before e after hsplit shareId now share htag
  have hcreated : ∃ e₀ ∈ before, ∃ r, e₀.tag = .created r ∧ sealedPart r = sealedPart share := by
    rcases horigin with ⟨r, hr, hsame⟩ | hcreated
    · exact absurd ((sealedPart_eq hsame).1.trans hid) (hfresh r hr)
    · exact hcreated
  obtain ⟨e₀, he₀, r, htag₀, hsame⟩ := hcreated
  have hlabel : CreatedBy (calls e₀.proc) e₀.tag :=
    State.label_of_mem_history h (request_labels (calls e₀.proc)) e₀
      (hsplit ▸ List.mem_append_left _ he₀) rfl
  obtain ⟨shareId', userId', clock', req', hcall, hnew⟩ := hlabel r htag₀
  have hrid : shareId' = shareId := by
    rw [← (newShare_ok hnew).1, ← hid]
    exact (sealedPart_eq hsame).1
  subst hrid
  have hproc := honly _ _ _ _ hcall
  rw [hproc, hcreate] at hcall
  cases hcall
  obtain ⟨-, hblob, hblobIv, hmax⟩ := sealedPart_eq hsame
  refine ⟨r, hnew, ?_, ?_, hleft, ?_⟩
  · rw [hblob]
    rfl
  · rw [hblobIv]
    rfl
  · rw [← (newShare_blob hnew).2.2, hmax]
    change share.maxViews - share.viewCount < share.maxViews
    omega

/-- Whoever opens the link of a share in a browser, in whatever order the server's calls run, has
the key removed from the address bar, and sees the item that was shared when the server answers
with a share. -/
theorem reveal_shareLink (haes : c.aes.Correct)
    (hjson : ∀ plaintext, c.parse (c.serialize plaintext) = some plaintext) (hd : Sound d)
    (h : (Shares.startCalls d calls).exec sched = some s') {i₀ i : I} {plaintext : P}
    {name : JsText} {vaultEncKey : CryptoKey} {maxViews expiresInHours : Int} {draws : ShareDraws}
    {body : CreateShareRequest} {shareKey : ShareKey} {userId : Uuid} {clock : Clock}
    (hraw : draws.raw.length = 32)
    (hbody : handleCreate c plaintext name vaultEncKey maxViews expiresInHours draws =
      .ok (body, shareKey))
    (hcreate : calls i₀ = .create shareId userId clock body)
    (hfresh : ∀ r ∈ d.shares, r.id ≠ shareId)
    (honly : ∀ j userId clock req, calls j = .create shareId userId clock req → j = i₀)
    {now : Int} {response : ViewShareResponse} (hview : calls i = .view shareId now)
    (hanswer : (s'.procs i).prog = .ret (.viewed response)) :
    let page := takeShareKey (UrlParts.ofText (shareLink shareId shareKey.keyB64url))
    page.2.hash = [] ∧ reveal c page.1 (.ok response) = .ok plaintext ∧
      0 ≤ response.remainingViews ∧ response.remainingViews < maxViews := by
  obtain ⟨rfl, hmax, hblob, hblobIv⟩ := handleCreate_ok hbody
  obtain ⟨share, hnew, hshown, hshownIv, hleft, hspent⟩ :=
    shown_of_created hd h hcreate hfresh honly hview hanswer
  obtain ⟨hdecoded, hdecodedIv, -⟩ := newShare_blob hnew
  rw [hblob, Base64.decode_encode, Option.some.injEq] at hdecoded
  rw [hblobIv, Base64.decode_encode, Option.some.injEq] at hdecodedIv
  have hne : draws.raw ≠ [] := by
    intro hnil
    rw [hnil] at hraw
    cases hraw
  rw [generateShareKey, takeShareKey_shareLink shareId hne]
  refine ⟨rfl, ?_, hleft, hmax ▸ hspent⟩
  apply reveal_of_key haes hjson hraw
  · rw [hshown, ← hdecoded]
  · rw [hshownIv, ← hdecodedIv]

end Runs

end Reveal

/-- Encryption in the clear for notes that are byte strings. -/
private def memoShareCrypto : ItemCrypto Bytes where
  aes := Aead.transparent
  hmacSign key message := key ++ message
  typeOf _ := some "note"
  serialize := id
  parse := some

private def memoDraws : ShareDraws where
  raw := List.replicate 32 0
  payloadIv := List.replicate 12 1
  labelIv := List.replicate 12 2

/-- The key of the owner's vault. -/
private def memoVaultKey : Bytes := List.replicate 32 3

private def memoShare : Share where
  id := 7
  userId := 1
  blob := Aead.transparent.encrypt memoDraws.raw memoDraws.payloadIv [] [65]
  blobIv := memoDraws.payloadIv
  labelBlob := Aead.transparent.encrypt memoVaultKey memoDraws.labelIv [] (encodeUtf8 (js "memo"))
  labelIv := memoDraws.labelIv
  maxViews := 1
  expiresAt := seconds (24 * 3600)
  createdAt := 0

private def memoBody : CreateShareRequest where
  blob := Base64.encode memoShare.blob
  blobIv := Base64.encode memoShare.blobIv
  labelBlob := Base64.encode memoShare.labelBlob
  labelIv := Base64.encode memoShare.labelIv
  maxViews := 1
  expiresInHours := 24

private theorem newShare_memoBody : newShare 7 1 ⟨0, 0⟩ memoBody = .ok memoShare := by
  unfold newShare
  simp only [check_bind_ok, decodeB64_bind_ok]
  refine ⟨by decide, by decide, _, Base64.decode_encode _, _, Base64.decode_encode _, _,
    Base64.decode_encode _, _, Base64.decode_encode _, by decide, by decide, by decide, by decide,
    rfl⟩

/-- The note is shared and its link is opened. -/
private def shareAndOpen (i : Fin 2) : ShareCall :=
  if i = 0 then .create 7 1 ⟨0, 0⟩ memoBody else .view 7 50

/-- The creation after the checks of its body. -/
private def insertMemo : ShareRequest ShareAnswer := do
  let _ ← autocommit (shareTable.insert memoShare [Shares.userRef 1]) fun _ => .created memoShare
  .ret (.created 7)

private def ownersDb : ShareDb where
  users := [1]
  shares := []

private theorem start_shareAndOpen : Shares.startCalls ownersDb shareAndOpen =
    State.start ownersDb fun i => if i = 0 then insertMemo else viewShare 7 50 := by
  unfold Shares.startCalls
  congr 1
  funext i
  by_cases hi : i = 0
  · rw [shareAndOpen, if_pos hi, if_pos hi, ShareCall.request, createShare, newShare_memoBody]
    rfl
  · rw [shareAndOpen, if_neg hi, if_neg hi]
    rfl

/-- An answer with a share. -/
private def isViewed : ShareAnswer → Bool
  | .viewed _ => true
  | _ => false

private theorem exists_shareAndOpen : ∃ s' response,
    (Shares.startCalls ownersDb shareAndOpen).exec (Act.inTurn [(0, 3), (1, 3)]) = some s' ∧
      (s'.procs 1).prog = .ret (.viewed response) := by
  have hrun : ((Shares.startCalls ownersDb shareAndOpen).exec (Act.inTurn [(0, 3), (1, 3)])).any
      (fun s' => (s'.procs 1).prog.answer.any isViewed) = true := by
    rw [start_shareAndOpen]
    decide
  obtain ⟨s', hs', hviewed⟩ := (Option.any_eq_true _ _).mp hrun
  obtain ⟨out, hout, hviewed⟩ := (Option.any_eq_true _ _).mp hviewed
  cases out with
  | viewed response => exact ⟨s', response, hs', Prog.answer_eq_some.mp hout⟩
  | created | listed | deleted | cleaned => cases hviewed

/-- A note is shared, its link is opened once, and the note is shown. -/
theorem reveal_shareLink_memo : ∃ s' response,
    (Shares.startCalls ownersDb shareAndOpen).exec (Act.inTurn [(0, 3), (1, 3)]) = some s' ∧
    (s'.procs 1).prog = .ret (.viewed response) ∧
    let page := takeShareKey (UrlParts.ofText
      (shareLink 7 (generateShareKey memoDraws.raw).keyB64url))
    page.2.hash = [] ∧ reveal memoShareCrypto page.1 (.ok response) = .ok [65] ∧
      0 ≤ response.remainingViews ∧ response.remainingViews < 1 := by
  obtain ⟨s', response, hs', hanswer⟩ := exists_shareAndOpen
  have hsound : Sound ownersDb := by
    constructor
    · exact List.nodup_nil
    · intro r hr
      cases hr
  have honly : ∀ j userId clock req, shareAndOpen j = .create 7 userId clock req → j = 0 := by
    intro j userId clock req hcall
    by_cases hj : j = 0
    · exact hj
    · rw [shareAndOpen, if_neg hj] at hcall
      cases hcall
  have hbody : handleCreate memoShareCrypto [65] (js "memo") (.aesGcm memoVaultKey) 1 24 memoDraws =
      .ok (memoBody, generateShareKey memoDraws.raw) := rfl
  have hview : shareAndOpen 1 = .view 7 50 := rfl
  exact ⟨s', response, hs', hanswer, reveal_shareLink Aead.transparent_correct (fun _ => rfl)
    hsound hs' rfl hbody rfl (fun r hr => absurd hr List.not_mem_nil) honly hview hanswer⟩

end Nopass
