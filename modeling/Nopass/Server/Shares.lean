import Mathlib.Algebra.Order.BigOperators.Group.List
import Nopass.Core.Sql.Ledger
import Nopass.Core.Text.Base64
import Nopass.Server.Schema
import Nopass.Server.Throttle

/-!
# Shares

A share is an encrypted snapshot of one item behind a public link. Each view of the link is
counted by the statement that reads the share, and the share stops resolving when its views
are used up, when it expires and when its owner revokes it. The limiter in front of a view is
not modelled: a view that it turns away is one that is cut off.
-/

namespace Nopass

open ReadCommitted Throttle

/-- A row of `shares`. -/
structure Share where
  id : Uuid
  userId : Uuid
  blob : Bytes
  blobIv : Bytes
  labelBlob : Bytes
  labelIv : Bytes
  maxViews : Int
  viewCount : Int := 0
  expiresAt : Int
  createdAt : Int
  deriving DecidableEq, Repr

/-- The shares, and the accounts that they may belong to. -/
structure ShareDb where
  users : List Uuid
  shares : List Share
  deriving DecidableEq, Repr

/-- The rows that statements lock. -/
inductive ShareLock where
  | user (id : Uuid)
  | share (id : Uuid)
  deriving DecidableEq, Repr

/-- What a commit did. -/
inductive ShareTag where
  | created (share : Share)
  /-- A view at a time, and the share as it was returned. -/
  | viewed (id : Uuid) (now : Int) (share : Option Share)
  /-- The rows that a deletion found. -/
  | removed (shares : List Share)
  deriving DecidableEq, Repr

namespace Shares

/-- A call of the share routes. -/
abbrev ShareRequest (O : Type) := Prog ShareDb ShareLock ShareTag ApiError O

/-- `shares`. -/
def shareTable : Table ShareDb ShareLock Share where
  get d := d.shares
  set shares d := { d with shares := shares }
  key r := .share r.id

/-- `user_id UUID NOT NULL REFERENCES users(id)`. -/
def userRef (id : Uuid) : Ref ShareDb ShareLock where
  row := .user id
  live d := decide (id ∈ d.users)

/-! ## Requests -/

/-- 64 KiB. -/
def maxBlobBytes : Nat := 64 * 1024

/-- The size of an AES-GCM nonce. -/
def ivBytes : Nat := 12

/-- The size of an AES-GCM tag. -/
def minCiphertextBytes : Nat := 16

/-- The size of an encrypted label. -/
def maxLabelBytes : Nat := 1024

/-- The most views of a share. -/
def maxViewsLimit : Int := 10

/-- Seven days. -/
def maxHours : Int := 168

/-- The body of a creation. -/
structure CreateShareRequest where
  blob : String
  blobIv : String
  labelBlob : String
  labelIv : String
  maxViews : Int
  expiresInHours : Int
  deriving DecidableEq, Repr

/-- One share in the owner's list. -/
structure ShareInfo where
  id : Uuid
  labelBlob : String
  labelIv : String
  maxViews : Int
  viewCount : Int
  expiresAt : Int
  createdAt : Int
  deriving DecidableEq, Repr

/-- What the viewer of a link gets. -/
structure ViewShareResponse where
  blob : String
  blobIv : String
  remainingViews : Int
  expiresAt : Int
  deriving DecidableEq, Repr

/-- What a call answers. -/
inductive ShareAnswer where
  | created (shareId : Uuid)
  | listed (shares : List ShareInfo)
  | deleted
  | viewed (response : ViewShareResponse)
  | cleaned (count : Nat)
  deriving DecidableEq, Repr

/-- A base64 field of the body. -/
def decodeB64 (value field : String) : Except ApiError Bytes :=
  match Base64.decode value with
  | some bytes => .ok bytes
  | none => .error (.badRequest ("invalid " ++ field ++ " base64"))

/-- A check of the body. -/
def check (cond : Bool) (message : String) : Except ApiError Unit :=
  if cond then .ok () else .error (.badRequest message)

/-- The row that a creation inserts, or why there is none. -/
def newShare (shareId userId : Uuid) (clock : Clock) (req : CreateShareRequest) :
    Except ApiError Share := do
  check (decide (1 ≤ req.maxViews) && decide (req.maxViews ≤ maxViewsLimit))
    ("maxViews must be 1–" ++ toString maxViewsLimit)
  check (decide (1 ≤ req.expiresInHours) && decide (req.expiresInHours ≤ maxHours))
    ("expiresInHours must be 1–" ++ toString maxHours)
  let blob ← decodeB64 req.blob "blob"
  let blobIv ← decodeB64 req.blobIv "blob_iv"
  let labelBlob ← decodeB64 req.labelBlob "label_blob"
  let labelIv ← decodeB64 req.labelIv "label_iv"
  check (decide (blob.length ≤ maxBlobBytes)) "share blob too large"
  check (decide (minCiphertextBytes ≤ blob.length) &&
    decide (minCiphertextBytes ≤ labelBlob.length))
    "share ciphertext too short"
  check (decide (labelBlob.length ≤ maxLabelBytes)) "share label too large"
  check (decide (blobIv.length = ivBytes) && decide (labelIv.length = ivBytes))
    ("iv must be " ++ toString ivBytes ++ " bytes")
  .ok { id := shareId, userId := userId, blob := blob, blobIv := blobIv, labelBlob := labelBlob,
        labelIv := labelIv, maxViews := req.maxViews,
        expiresAt := clock.server + seconds (req.expiresInHours * 3600),
        createdAt := clock.database }

/-- The id of a share is drawn by the database. -/
def createShare (shareId userId : Uuid) (clock : Clock) (req : CreateShareRequest) :
    ShareRequest ShareAnswer :=
  match newShare shareId userId clock req with
  | .error e => .error (some e)
  | .ok share => do
    let _ ← autocommit (shareTable.insert share [userRef userId]) fun _ => .created share
    .ret (.created shareId)

/-- A share as its owner sees it. -/
def shareInfo (s : Share) : ShareInfo where
  id := s.id
  labelBlob := Base64.encode s.labelBlob
  labelIv := Base64.encode s.labelIv
  maxViews := s.maxViews
  viewCount := s.viewCount
  expiresAt := s.expiresAt
  createdAt := s.createdAt

/-- The owner's shares, the newest first. -/
def listShares (userId : Uuid) (now : Int) : ShareRequest ShareAnswer := do
  let shares ← shareTable.select fun _ r => decide (r.userId = userId) && decide (now < r.expiresAt)
  let sorted := shares.mergeSort fun a b => decide (b.createdAt ≤ a.createdAt)
  .ret (.listed (sorted.map shareInfo))

/-- The owner revokes a share. -/
def deleteShare (userId shareId : Uuid) : ShareRequest ShareAnswer := do
  let rows ← autocommit
    (shareTable.delete fun _ r => decide (r.id = shareId) && decide (r.userId = userId)) .removed
  if rows.isEmpty then .error (some (.notFound "share not found")) else .ret .deleted

/-- Drop expired shares. -/
def deleteExpired (now : Int) : ShareRequest ShareAnswer := do
  let rows ← autocommit (shareTable.delete fun _ r => decide (r.expiresAt < now)) .removed
  .ret (.cleaned rows.length)

/-- One more view. -/
def countView (s : Share) : Share := { s with viewCount := s.viewCount + 1 }

/-- Whether a link resolves. -/
def resolves (shareId : Uuid) (now : Int) (r : Share) : Bool :=
  decide (r.id = shareId) && decide (now < r.expiresAt) && decide (r.viewCount < r.maxViews)

/-- Consume one view. -/
def consumeView (shareId : Uuid) (now : Int) : ShareRequest (Option Share) := do
  let rows ← autocommit (shareTable.update (fun _ => resolves shareId now) countView) fun rows =>
    .viewed shareId now (rows.head?.map countView)
  .ret (rows.head?.map countView)

/-- The answer to a view. -/
def viewResponse (share : Share) : ViewShareResponse where
  blob := Base64.encode share.blob
  blobIv := Base64.encode share.blobIv
  remainingViews := share.maxViews - share.viewCount
  expiresAt := share.expiresAt

/-- Missing, expired and exhausted shares are the same error. -/
def answerView : Option Share → ShareRequest ShareAnswer
  | none => .error (some (.notFound "share not found"))
  | some share => .ret (.viewed (viewResponse share))

/-- A view of a link. -/
def viewShare (shareId : Uuid) (now : Int) : ShareRequest ShareAnswer := do
  let share ← consumeView shareId now
  answerView share

/-- The calls. -/
inductive ShareCall where
  | create (shareId userId : Uuid) (clock : Clock) (req : CreateShareRequest)
  | list (userId : Uuid) (now : Int)
  | delete (userId shareId : Uuid)
  | view (shareId : Uuid) (now : Int)
  | deleteExpired (now : Int)

/-- A call, statement by statement. -/
def ShareCall.request : ShareCall → ShareRequest ShareAnswer
  | .create shareId userId clock req => createShare shareId userId clock req
  | .list userId now => listShares userId now
  | .delete userId shareId => deleteShare userId shareId
  | .view shareId now => viewShare shareId now
  | .deleteExpired now => Shares.deleteExpired now

/-! ## What is promised -/

/-- Views left of a share. -/
def remaining (s : Share) : Int := s.maxViews - s.viewCount

/-- Views left of the share with an id among some rows. -/
def left (id : Uuid) (shares : List Share) : Int :=
  ((shares.find? fun r => r.id = id).map remaining).getD 0

/-- The views of a share that a commit grants. -/
def granted (id : Uuid) : ShareTag → Int
  | .created share => if share.id = id then share.maxViews else 0
  | .viewed _ _ _ => 0
  | .removed _ => 0

/-- Whether a commit creates a share. -/
def creations (id : Uuid) : ShareTag → Int
  | .created share => if share.id = id then 1 else 0
  | .viewed _ _ _ => 0
  | .removed _ => 0

/-- The views of a share that a commit makes. -/
def spent (id : Uuid) : ShareTag → Int
  | .created _ => 0
  | .viewed shareId _ share => if shareId = id ∧ share.isSome then 1 else 0
  | .removed _ => 0

/-- The views of a share that a commit drops. -/
def forfeited (id : Uuid) : ShareTag → Int
  | .created _ => 0
  | .viewed _ _ _ => 0
  | .removed shares => left id shares

/-- What never changes of a share. -/
def sealedPart (s : Share) : Share := { s with viewCount := 0 }

/-- A share that can be viewed at most as often as it may be. -/
structure InBounds (s : Share) : Prop where
  positive : 1 ≤ s.maxViews
  bounded : s.maxViews ≤ maxViewsLimit
  counted : 0 ≤ s.viewCount
  limited : s.viewCount ≤ s.maxViews

/-- Ids are primary keys, and every share is in bounds. -/
structure Sound (d : ShareDb) : Prop where
  nodup : (d.shares.map (·.id)).Nodup
  rows : ∀ r ∈ d.shares, InBounds r

section Run

variable {I : Type} [DecidableEq I] [Fintype I]

/-- The server with its calls. -/
abbrev ShareState (I : Type) := State I ShareDb ShareLock ShareTag ApiError ShareAnswer

/-- The calls at their start. -/
def startCalls (d : ShareDb) (calls : I → ShareCall) : ShareState I :=
  State.start d fun i => (calls i).request

/-- A commit of some call that creates the share again. -/
def Creates (id : Uuid) (e : Event I ShareDb ShareTag) : Prop :=
  ∃ share, e.tag = .created share ∧ share.id = id

/-- The views of a run are accounted for: what was left of a share and what was granted is spent,
dropped or left; every reader of a link is one of the views that were spent; each time that a share
exists it has ten readers at most; and the views of a share count down. -/
structure ViewsCounted (calls : I → ShareCall) (s : ShareState I) (sched : List (I × Act))
    (s' : ShareState I) : Prop where
  conserved : ∀ id, left id s'.db.shares +
      ((s.history sched).map fun e => spent id e.tag + forfeited id e.tag).sum =
    left id s.db.shares + ((s.history sched).map fun e => granted id e.tag).sum
  readers : ∀ id (readers : Finset I),
    (∀ i ∈ readers, ∃ now response, calls i = .view id now ∧
      (s'.procs i).prog = .ret (.viewed response)) →
    (readers.card : Int) ≤
      left id s.db.shares + ((s.history sched).map fun e => granted id e.tag).sum
  limited : ∀ id, left id s.db.shares + ((s.history sched).map fun e => granted id e.tag).sum ≤
    maxViewsLimit * ((if id ∈ s.db.shares.map (·.id) then 1 else 0) +
      ((s.history sched).map fun e => creations id e.tag).sum)
  counts : ∀ before e mid e' after, s.history sched = before ++ e :: (mid ++ e' :: after) →
    ∀ id now share now' share', e.tag = .viewed id now (some share) →
      e'.tag = .viewed id now' (some share') → (∀ x ∈ mid, ¬ Creates id x) →
        remaining share' < remaining share

/-- What a link reveals is a share that was there or was created, unchanged, before it expires and
within its views; and a share that was deleted is not revealed again. -/
structure ViewsAuthentic (calls : I → ShareCall) (s : ShareState I) (sched : List (I × Act))
    (s' : ShareState I) : Prop where
  answered : ∀ i id now response, calls i = .view id now →
    (s'.procs i).prog = .ret (.viewed response) → ∃ e ∈ s.history sched, e.proc = i ∧
      ∃ share, e.tag = .viewed id now (some share) ∧ response = viewResponse share
  revealed : ∀ before e after, s.history sched = before ++ e :: after →
    ∀ id now share, e.tag = .viewed id now (some share) →
      share.id = id ∧ now < share.expiresAt ∧ 1 ≤ share.viewCount ∧ 0 ≤ remaining share ∧
        ((∃ r ∈ s.db.shares, sealedPart r = sealedPart share) ∨
          ∃ e₀ ∈ before, ∃ r, e₀.tag = .created r ∧ sealedPart r = sealedPart share)
  revoked : ∀ before e after, s.history sched = before ++ e :: after →
    ∀ rows r, e.tag = .removed rows → r ∈ rows → (∀ x ∈ after, ¬ Creates r.id x) →
      ∀ e' ∈ after, ∀ now share, e'.tag ≠ .viewed r.id now (some share)

end Run

/-! ## One commit -/

section Commit

variable {id : Uuid} {now : Int} {d d' : ShareDb} {r share : Share} {shares : List Share}
  {tag : ShareTag} {L : List (ShareLock × LockMode)}

@[simp] theorem countView_id : (countView r).id = r.id := rfl

@[simp] theorem sealedPart_countView : sealedPart (countView r) = sealedPart r := rfl

@[simp] theorem remaining_countView : remaining (countView r) = remaining r - 1 := by
  simp only [remaining, countView]
  omega

/-- What a link resolves to. -/
theorem resolves_iff : resolves id now r = true ↔
    r.id = id ∧ now < r.expiresAt ∧ r.viewCount < r.maxViews := by
  simp only [resolves, Bool.and_eq_true, decide_eq_true_eq, and_assoc]

/-- What a commit does to the shares. -/
def ShareCommits : ShareTag → ShareDb → ShareDb → Prop
  | .created share, d, d' => (∀ r ∈ d.shares, r.id ≠ share.id) ∧ share.viewCount = 0 ∧
      InBounds share ∧ d'.shares = d.shares ++ [share]
  | .viewed _ _ none, d, d' => d'.shares = d.shares
  | .viewed id now (some share), d, d' =>
      (∃ old ∈ d.shares, resolves id now old = true ∧ share = countView old) ∧
        d'.shares = d.shares.map fun r => if r.id = id then countView r else r
  | .removed rows, d, d' => (∀ r ∈ rows, r ∈ d.shares) ∧
      d'.shares = d.shares.filter fun r => decide (r.id ∉ rows.map (·.id))

/-- Among rows with distinct ids the first one with an id is the only one. -/
theorem eq_of_id (hd : Sound d) {a b : Share} (ha : a ∈ d.shares) (hb : b ∈ d.shares)
    (hid : a.id = b.id) : a = b :=
  List.inj_on_of_nodup_map hd.nodup ha hb hid

/-- The row with an id is found by it. -/
theorem find?_eq (hd : Sound d) (hr : r ∈ d.shares) :
    (d.shares.find? fun x => x.id = r.id) = some r := by
  cases hfind : d.shares.find? fun x => decide (x.id = r.id) with
  | none => exact absurd (List.find?_eq_none.mp hfind r hr) (by simp)
  | some x =>
    have hx := List.find?_some hfind
    have hid : x.id = r.id := by simpa using hx
    rw [eq_of_id hd (List.mem_of_find?_eq_some hfind) hr hid]

/-- The views left of a row that is there. -/
theorem left_of_mem (hd : Sound d) (hr : r ∈ d.shares) : left r.id d.shares = remaining r := by
  rw [left, find?_eq hd hr]
  rfl

/-- Nothing is left of a share that is not there. -/
theorem left_of_forall_ne (h : ∀ x ∈ shares, x.id ≠ id) : left id shares = 0 := by
  have hnone : (shares.find? fun x => decide (x.id = id)) = none := by
    rw [List.find?_eq_none]
    intro x hx hxid
    exact h x hx (of_decide_eq_true hxid)
  rw [left, hnone]
  rfl

/-- Rows in bounds have views left, or none. -/
theorem left_nonneg (h : ∀ x ∈ shares, InBounds x) : 0 ≤ left id shares := by
  unfold left
  cases hfind : shares.find? fun x => decide (x.id = id) with
  | none => exact Int.le_refl 0
  | some x =>
    have hok := h x (List.mem_of_find?_eq_some hfind)
    have hlimited := hok.limited
    simp only [Option.map_some, Option.getD_some, remaining]
    omega

/-- A commit keeps the shares in bounds. -/
theorem ShareCommits.sound (h : ShareCommits tag d d') (hd : Sound d) : Sound d' := by
  cases tag with
  | created share =>
    obtain ⟨hnew, -, hok, hshares⟩ := h
    constructor
    · rw [hshares, List.map_append, List.map_singleton]
      apply List.Nodup.append hd.nodup (List.nodup_singleton _)
      intro x hx hx'
      obtain ⟨r, hr, rfl⟩ := List.mem_map.mp hx
      exact hnew r hr (List.mem_singleton.mp hx')
    · intro r hr
      rw [hshares, List.mem_append, List.mem_singleton] at hr
      rcases hr with hr | rfl
      · exact hd.rows r hr
      · exact hok
  | viewed id now share =>
    cases share with
    | none =>
      have hsame : d'.shares = d.shares := h
      constructor
      · rw [hsame]
        exact hd.nodup
      · rw [hsame]
        exact hd.rows
    | some share =>
      obtain ⟨⟨old, hold, hresolves, -⟩, hshares⟩ := h
      obtain ⟨rfl, -, hlimit⟩ := resolves_iff.mp hresolves
      constructor
      · have hids : d'.shares.map (·.id) = d.shares.map (·.id) := by
          rw [hshares, List.map_map]
          apply List.map_congr_left
          intro r _
          simp only [Function.comp_apply]
          split
          · rfl
          · rfl
        rw [hids]
        exact hd.nodup
      · intro r hr
        rw [hshares] at hr
        obtain ⟨r₀, hr₀, rfl⟩ := List.mem_map.mp hr
        have hok := hd.rows r₀ hr₀
        split
        · rename_i hid
          have hsame := eq_of_id hd hr₀ hold hid
          subst hsame
          have hcounted := hok.counted
          refine ⟨hok.positive, hok.bounded, ?_, ?_⟩
          · change 0 ≤ r₀.viewCount + 1
            omega
          · change r₀.viewCount + 1 ≤ r₀.maxViews
            omega
        · exact hok
  | removed rows =>
    obtain ⟨-, hshares⟩ := h
    constructor
    · rw [hshares]
      exact hd.nodup.sublist (List.filter_sublist.map _)
    · intro r hr
      rw [hshares] at hr
      exact hd.rows r (List.mem_of_mem_filter hr)

/-- The ids that a commit touches. -/
def touched : ShareTag → List Uuid
  | .created share => [share.id]
  | .viewed _ _ none => []
  | .viewed id _ (some _) => [id]
  | .removed rows => rows.map (·.id)

/-- The rows with an id. -/
def rowsOf (id : Uuid) (d : ShareDb) : List Share := d.shares.filter fun r => decide (r.id = id)

/-- Counting a view leaves the rows with other ids. -/
theorem filter_map_countView {id' : Uuid} (hne : id' ≠ id) (shares : List Share) :
    ((shares.map fun r => if r.id = id' then countView r else r).filter fun r =>
      decide (r.id = id)) = shares.filter fun r => decide (r.id = id) := by
  induction shares with
  | nil => rfl
  | cons r rest ih =>
    rw [List.map_cons]
    by_cases hr : r.id = id'
    · have hother : r.id ≠ id := hr ▸ hne
      rw [if_pos hr, List.filter_cons_of_neg (by simp [hother]),
        List.filter_cons_of_neg (by simp [hother]), ih]
    · rw [if_neg hr, List.filter_cons, List.filter_cons, ih]

/-- A commit leaves the rows that it does not touch. -/
theorem ShareCommits.untouched (h : ShareCommits tag d d') (hid : id ∉ touched tag) :
    rowsOf id d' = rowsOf id d := by
  unfold rowsOf
  cases tag with
  | created share =>
    obtain ⟨-, -, -, hshares⟩ := h
    have hne : share.id ≠ id := fun heq => hid (List.mem_singleton.mpr heq.symm)
    rw [hshares, List.filter_append, List.filter_cons_of_neg (by simpa using hne),
      List.filter_nil, List.append_nil]
  | viewed id' now share =>
    cases share with
    | none => rw [show d'.shares = d.shares from h]
    | some share =>
      obtain ⟨-, hshares⟩ := h
      have hne : id' ≠ id := fun heq => hid (List.mem_singleton.mpr heq.symm)
      rw [hshares, filter_map_countView hne]
  | removed rows =>
    obtain ⟨-, hshares⟩ := h
    rw [hshares, List.filter_filter]
    apply List.filter_congr
    intro r _
    by_cases hr : r.id = id
    · subst hr
      simpa [touched] using hid
    · simp [hr]

/-- What is left of a share changes by what the commit's label says. -/
theorem ShareCommits.balance (h : ShareCommits tag d d') (hd : Sound d) (id : Uuid) :
    left id d'.shares + (spent id tag + forfeited id tag) = left id d.shares + granted id tag := by
  cases tag with
  | created share =>
    obtain ⟨hnew, hzero, -, hshares⟩ := h
    by_cases hid : share.id = id
    · subst hid
      have hbefore : left share.id d.shares = 0 := left_of_forall_ne hnew
      have hnone : (d.shares.find? fun r => decide (r.id = share.id)) = none := by
        rw [List.find?_eq_none]
        intro r hr hrid
        exact hnew r hr (of_decide_eq_true hrid)
      have hafter : left share.id d'.shares = share.maxViews := by
        rw [hshares, left, List.find?_append, hnone]
        simp [remaining, hzero]
      rw [hbefore, hafter]
      simp [spent, forfeited, granted]
    · have hafter : left id d'.shares = left id d.shares := by
        rw [hshares, left, List.find?_append]
        simp [left, hid]
      rw [hafter]
      simp [spent, forfeited, granted, hid]
  | viewed id' now share =>
    cases share with
    | none =>
      rw [show d'.shares = d.shares from h]
      simp [spent, forfeited, granted]
    | some share =>
      obtain ⟨⟨old, hold, hresolves, -⟩, hshares⟩ := h
      obtain ⟨rfl, -, -⟩ := resolves_iff.mp hresolves
      have hfind (id : Uuid) : (d'.shares.find? fun r => decide (r.id = id)) =
          (d.shares.find? fun r => decide (r.id = id)).map fun r =>
            if r.id = old.id then countView r else r := by
        rw [hshares, List.find?_map]
        congr 1
        apply congrArg (List.find? · _)
        funext r
        simp only [Function.comp_apply]
        split
        · rfl
        · rfl
      by_cases hid : old.id = id
      · subst hid
        rw [left_of_mem hd hold, left, hfind, find?_eq hd hold]
        simp [spent, forfeited, granted]
      · have hafter : left id d'.shares = left id d.shares := by
          rw [left, hfind, left]
          cases hrow : d.shares.find? fun r => decide (r.id = id) with
          | none => rfl
          | some r =>
            have hrid : r.id = id := by
              have hr := List.find?_some hrow
              simpa using hr
            rw [Option.map_some, if_neg (fun h => hid (h.symm.trans hrid))]
        rw [hafter]
        simp [spent, forfeited, granted, hid]
  | removed rows =>
    obtain ⟨hrows, hshares⟩ := h
    have hgone : left id d'.shares + left id rows = left id d.shares := by
      by_cases hid : id ∈ rows.map (·.id)
      · obtain ⟨r, hr, rfl⟩ := List.mem_map.mp hid
        have hafter : left r.id d'.shares = 0 := by
          apply left_of_forall_ne
          intro x hx hxid
          rw [hshares, List.mem_filter, hxid] at hx
          simpa [hid] using hx.2
        have hdropped : left r.id rows = remaining r := by
          cases hfind : rows.find? fun x => decide (x.id = r.id) with
          | none => exact absurd (List.find?_eq_none.mp hfind r hr) (by simp)
          | some x =>
            have hx := List.find?_some hfind
            have hxid : x.id = r.id := by simpa using hx
            have hsame := eq_of_id hd (hrows x (List.mem_of_find?_eq_some hfind)) (hrows r hr) hxid
            rw [left, hfind, hsame]
            rfl
        rw [hafter, hdropped, left_of_mem hd (hrows r hr), Int.zero_add]
      · have hdropped : left id rows = 0 := by
          apply left_of_forall_ne
          intro x hx hxid
          exact hid (List.mem_map.mpr ⟨x, hx, hxid⟩)
        have hafter : left id d'.shares = left id d.shares := by
          have hfilter : (d'.shares.find? fun r => decide (r.id = id)) =
              d.shares.find? fun r => decide (r.id = id) := by
            rw [hshares, List.find?_filter]
            apply congrArg (List.find? · _)
            funext r
            by_cases hr : r.id = id
            · subst hr
              simpa using hid
            · simp [hr]
          rw [left, hfilter, left]
        rw [hafter, hdropped, Int.add_zero]
    simp only [spent, forfeited, granted, Int.zero_add, Int.add_zero]
    exact hgone

/-- Strengths that exclude other writers of a row. -/
def Writes (m : LockMode) : Prop := m = .noKeyUpdate ∨ m = .update

/-- What concurrent calls promise each other. -/
def shareSpec : Spec ShareDb ShareLock ShareTag ApiError where
  inv := Sound
  guar _ _ := True
  guar_refl _ := trivial
  guar_trans _ _ := trivial
  keeps k m d d' :=
    match k with
    | .user _ => True
    | .share id => Writes m → rowsOf id d' = rowsOf id d
  keeps_refl k _ _ := by
    cases k with
    | user id => exact trivial
    | share id => exact fun _ => rfl
  keeps_trans {k} _ _ _ _ h h' := by
    cases k with
    | user id => exact trivial
    | share id => exact fun hm => (h' hm).trans (h hm)
  allow _ _ := True
  asserts := ShareCommits

/-- A commit under the locks of the rows that it touches owes nothing more. -/
theorem owes_of_commits (h : ShareCommits tag d d') (hd : Sound d)
    (hl : ∀ id ∈ touched tag, ∃ m, Writes m ∧ (ShareLock.share id, m) ∈ L) :
    shareSpec.Owes L tag d d' := by
  refine ⟨h, h.sound hd, trivial, ?_⟩
  intro k m hcompat
  cases k with
  | user id => exact trivial
  | share id =>
    intro hm
    by_cases hid : id ∈ touched tag
    · obtain ⟨m', hm', hmem⟩ := hl id hid
      have hweak := LockMode.eq_keyShare hm' (hcompat _ hmem rfl)
      subst hweak
      rcases hm with hm | hm
      · cases hm
      · cases hm
    · exact h.untouched hid

/-- A row that is locked by a writer stays. -/
theorem mem_of_rely {n : ShareDb} {m : LockMode} (hr : shareSpec.Rely L n d) (hm : Writes m)
    (hl : (ShareLock.share r.id, m) ∈ L) (hmem : r ∈ n.shares) : r ∈ d.shares := by
  have hrows : rowsOf r.id d = rowsOf r.id n := hr.keeps _ hl hm
  have hmem' : r ∈ rowsOf r.id n := List.mem_filter.mpr ⟨hmem, decide_eq_true rfl⟩
  rw [← hrows] at hmem'
  exact List.mem_of_mem_filter hmem'

end Commit

/-! ## Each call -/

section Call

variable {share : Share}

/-- A deletion keeps the promise, whatever it goes on to answer. -/
theorem wp_deletion (cond : Share → Bool) {k : List Share → ShareRequest ShareAnswer}
    (hk : ∀ rows d, shareSpec.wp (fun _ _ _ _ => True) (k rows) [] id d) :
    shareSpec.Valid (autocommit (shareTable.delete fun _ => cond) .removed >>= k)
      fun _ _ => True := by
  intro d hd s hs n hn
  simp only [id_eq, List.nil_append]
  intro d' hr _
  refine ⟨owes_of_commits ⟨?_, ?_⟩ hr.inv ?_, hk _ _⟩
  · intro r hrow
    exact mem_of_rely hr (.inr rfl) (shareTable.locked_of_mem_hits hrow .update)
      (shareTable.mem_hits.mp hrow).1
  · simp only [Function.comp_apply, id_eq, Table.drop, shareTable]
    apply List.filter_congr
    intro r _
    simp
  · intro id hid
    obtain ⟨r, hrow, rfl⟩ := List.mem_map.mp hid
    exact ⟨.update, .inr rfl, shareTable.locked_of_mem_hits hrow .update⟩

/-- A view keeps the promise. -/
theorem viewShare_keeps (shareId : Uuid) (now : Int) :
    shareSpec.Valid (viewShare shareId now) fun _ _ => True := by
  have hanswer : ∀ share d,
      shareSpec.wp (fun _ _ _ _ => True) (answerView share) [] id d := by
    intro share d
    cases share with
    | none => exact fun _ _ => id
    | some share => exact fun _ _ => trivial
  rw [viewShare, consumeView, autocommit]
  simp only [Prog.bind_bind, Prog.commit_bind, Prog.ret_bind]
  intro d hd
  apply Table.wp_update_bind
  intro s hs n hn _
  simp only [id_eq, List.nil_append]
  intro d' hr _
  refine ⟨?_, hanswer _ _⟩
  cases hhits : shareTable.hits (fun _ => resolves shareId now) s n with
  | nil =>
    simp only [List.map_nil, List.head?_nil, Option.map_none]
    apply owes_of_commits _ hr.inv
    · intro id hid
      cases hid
    · rw [Function.comp_apply, Table.edit_nil]
      rfl
  | cons r rest =>
    have hrow : r ∈ shareTable.hits (fun _ => resolves shareId now) s n := by
      rw [hhits]
      exact List.mem_cons_self
    have hids : ∀ x ∈ r :: rest, x.id = shareId := by
      intro x hx
      rw [← hhits] at hx
      exact (resolves_iff.mp (shareTable.mem_hits.mp hx).2.2).1
    have hlock : (ShareLock.share r.id, LockMode.noKeyUpdate) ∈
        shareTable.locked (fun _ => resolves shareId now) .noKeyUpdate s n :=
      shareTable.locked_of_mem_hits hrow .noKeyUpdate
    have hrid := hids r List.mem_cons_self
    simp only [List.head?_cons, Option.map_some]
    apply owes_of_commits _ hr.inv
    · intro id hid
      have heq := List.mem_singleton.mp hid
      subst heq
      exact ⟨.noKeyUpdate, .inl rfl, List.mem_append_left _ (hrid ▸ hlock)⟩
    · refine ⟨⟨r, ?_, (shareTable.mem_hits.mp hrow).2.2, rfl⟩, ?_⟩
      · exact mem_of_rely hr (.inl rfl) (List.mem_append_left _ hlock)
          (shareTable.mem_hits.mp hrow).1
      · simp only [Function.comp_apply, id_eq, Table.edit, shareTable]
        apply List.map_congr_left
        intro x _
        have hiff : (ShareLock.share x.id ∈ (r :: rest).map fun r => ShareLock.share r.id) ↔
            x.id = shareId := by
          constructor
          · intro hmem
            obtain ⟨y, hy, hyx⟩ := List.mem_map.mp hmem
            rw [← ShareLock.share.inj hyx]
            exact hids y hy
          · intro hx
            rw [hx, ← hrid]
            exact List.mem_map_of_mem List.mem_cons_self
        simp only [hiff]

/-- A body that passes a check. -/
theorem check_bind_ok {α : Type} {cond : Bool} {message : String} {k : Unit → Except ApiError α}
    {a : α} : (check cond message >>= k) = .ok a ↔ cond = true ∧ k () = .ok a := by
  cases cond with
  | true => simp [check, Bind.bind, Except.bind]
  | false => simp [check, Bind.bind, Except.bind]

/-- A body whose field is base64. -/
theorem decodeB64_bind_ok {α : Type} {value field : String} {k : Bytes → Except ApiError α}
    {a : α} : (decodeB64 value field >>= k) = .ok a ↔
      ∃ bytes, Base64.decode value = some bytes ∧ k bytes = .ok a := by
  cases hdecode : Base64.decode value with
  | none => simp [decodeB64, hdecode, Bind.bind, Except.bind]
  | some bytes => simp [decodeB64, hdecode, Bind.bind, Except.bind]

/-- A row that a creation inserts is in bounds and was not viewed yet. -/
theorem newShare_ok {shareId userId : Uuid} {clock : Clock} {req : CreateShareRequest}
    (h : newShare shareId userId clock req = .ok share) :
    share.id = shareId ∧ share.viewCount = 0 ∧ InBounds share := by
  unfold newShare at h
  simp only [check_bind_ok, decodeB64_bind_ok, Bool.and_eq_true, decide_eq_true_eq] at h
  obtain ⟨⟨hpositive, hbounded⟩, -, _, -, _, -, _, -, _, -, -, -, -, -, hshare⟩ := h
  cases hshare
  exact ⟨rfl, rfl, hpositive, hbounded, Int.le_refl 0, by simp only; omega⟩

/-- A creation keeps the promise. -/
theorem createShare_keeps (shareId userId : Uuid) (clock : Clock) (req : CreateShareRequest) :
    shareSpec.Valid (createShare shareId userId clock req) fun _ _ => True := by
  rw [createShare]
  split
  · exact fun _ _ _ _ => id
  · rename_i share hnew
    obtain ⟨hid, hzero, hok⟩ := newShare_ok hnew
    rw [autocommit, Prog.bind_bind]
    intro d hd
    apply Table.wp_insert_bind
    · intro n hn hvacant _ d' hr _
      refine ⟨owes_of_commits ⟨?_, hzero, hok, rfl⟩ hr.inv ?_, fun _ _ => trivial⟩
      · have hrows : rowsOf share.id d' = rowsOf share.id n :=
          hr.keeps (.share share.id, .update) (by simp [shareTable]) (.inr rfl)
        intro r hmem heq
        have hmem' : r ∈ rowsOf share.id d' := List.mem_filter.mpr ⟨hmem, decide_eq_true heq⟩
        rw [hrows] at hmem'
        obtain ⟨hn', hsame⟩ := List.mem_filter.mp hmem'
        have hfree := List.all_eq_true.mp hvacant r hn'
        exact of_decide_eq_true hfree (congrArg ShareLock.share (of_decide_eq_true hsame))
      · intro id hmem
        have heq := List.mem_singleton.mp hmem
        subst heq
        exact ⟨.update, .inr rfl, by simp [shareTable]⟩
    · intro x hx
      cases hx

/-- Every call keeps the promise. -/
theorem request_keeps (call : ShareCall) : shareSpec.Valid call.request fun _ _ => True := by
  cases call with
  | create shareId userId clock req => exact createShare_keeps shareId userId clock req
  | list userId now => exact fun _ _ _ _ _ _ => trivial
  | delete userId shareId =>
    apply wp_deletion
    intro rows d
    split
    · exact fun _ _ => id
    · exact fun _ _ => trivial
  | view shareId now => exact viewShare_keeps shareId now
  | deleteExpired now => exact wp_deletion _ fun _ _ _ _ => trivial

end Call

/-! ## Runs -/

section Runs

variable {I : Type} {d d' : ShareDb} {events : List (Event I ShareDb ShareTag)} {id : Uuid}
  {now : Int}
  {share : Share}

/-- The view that a commit made. -/
def viewTaken : ShareTag → Option (Uuid × Int × Share)
  | .viewed id now (some share) => some (id, now, share)
  | _ => none

/-- What the view of a call has to do with its answer. -/
def ReportsView (call : ShareCall) (views : List (Uuid × Int × Share)) (out : ShareAnswer) :
    Prop :=
  ∀ id now response, call = .view id now → out = .viewed response →
    ∃ share, views = [(id, now, share)] ∧ response = viewResponse share

/-- A call that reveals a share has counted a view of it. -/
theorem request_yields (call : ShareCall) :
    call.request.Yields viewTaken (ReportsView call) [] := by
  cases call with
  | create shareId userId clock req =>
    simp only [ShareCall.request, createShare]
    split
    · trivial
    · intro s n
      simp only
      repeat' split
      · intro id now response hcall
        cases hcall
      · trivial
      · trivial
  | list userId now =>
    intro d id now response hcall
    cases hcall
  | delete userId shareId =>
    rw [ShareCall.request, deleteShare, autocommit, Prog.bind_bind]
    apply (neverCommits_delete _).labels.yields_bind
    intro rows
    rw [Prog.commit_bind, Prog.ret_bind]
    split
    · trivial
    · intro id now response hcall
      cases hcall
  | deleteExpired now =>
    intro s n id now response hcall
    cases hcall
  | view shareId now =>
    rw [ShareCall.request, viewShare, consumeView, autocommit, Prog.bind_bind, Prog.bind_bind]
    apply (neverCommits_update _ _ _).labels.yields_bind
    intro rows
    rw [Prog.commit_bind, Prog.ret_bind, Prog.ret_bind]
    cases rows with
    | nil => trivial
    | cons r rest =>
      intro id now' response hcall hout
      cases hcall
      cases hout
      exact ⟨countView r, rfl, rfl⟩

/-- A row comes from a row that was there, or from a creation. -/
theorem ShareCommits.origin {tag : ShareTag} {r : Share} (h : ShareCommits tag d d')
    (hr : r ∈ d'.shares) : (∃ r₀ ∈ d.shares, sealedPart r₀ = sealedPart r) ∨ tag = .created r := by
  cases tag with
  | created share =>
    obtain ⟨-, -, -, hshares⟩ := h
    rw [hshares, List.mem_append, List.mem_singleton] at hr
    rcases hr with hr | rfl
    · exact .inl ⟨r, hr, rfl⟩
    · exact .inr rfl
  | viewed id now share =>
    left
    cases share with
    | none =>
      rw [show d'.shares = d.shares from h] at hr
      exact ⟨r, hr, rfl⟩
    | some share =>
      obtain ⟨-, hshares⟩ := h
      rw [hshares] at hr
      obtain ⟨r₀, hr₀, rfl⟩ := List.mem_map.mp hr
      refine ⟨r₀, hr₀, ?_⟩
      split
      · rfl
      · rfl
  | removed rows =>
    obtain ⟨-, hshares⟩ := h
    rw [hshares] at hr
    exact .inl ⟨r, List.mem_of_mem_filter hr, rfl⟩

/-- Every row of a run was there at the start or was created, with the same contents. -/
theorem origin_of_leads (h : Leads d events d')
    (hc : ∀ e ∈ events, ShareCommits e.tag e.before e.after) : ∀ r ∈ d'.shares,
      (∃ r₀ ∈ d.shares, sealedPart r₀ = sealedPart r) ∨
        ∃ e ∈ events, ∃ r₀, e.tag = .created r₀ ∧ sealedPart r₀ = sealedPart r := by
  induction events generalizing d with
  | nil =>
    cases h
    exact fun r hr => .inl ⟨r, hr, rfl⟩
  | cons first rest ih =>
    obtain ⟨rfl, hrest⟩ := h
    intro r hr
    rcases ih hrest (fun e he => hc e (List.mem_cons_of_mem first he)) r hr with
      ⟨r₁, hr₁, hsame⟩ | ⟨e, he, r₀, htag, hsame⟩
    · rcases (hc first List.mem_cons_self).origin hr₁ with ⟨r₀, hr₀, hsame₀⟩ | htag
      · exact .inl ⟨r₀, hr₀, hsame₀.trans hsame⟩
      · exact .inr ⟨first, List.mem_cons_self, r₁, htag, hsame⟩
    · exact .inr ⟨e, List.mem_cons_of_mem first he, r₀, htag, hsame⟩

/-- A view was made of a share that had a view left, and leaves one less. -/
theorem ShareCommits.viewed (h : ShareCommits (.viewed id now (some share)) d d') (hd : Sound d)
    (hd' : Sound d') : share ∈ d'.shares ∧ share.id = id ∧ now < share.expiresAt ∧
      1 ≤ share.viewCount ∧ left id d.shares = remaining share + 1 ∧
        left id d'.shares = remaining share ∧ 0 ≤ remaining share := by
  obtain ⟨⟨old, hold, hresolves, rfl⟩, hshares⟩ := h
  obtain ⟨rfl, hopen, hlimit⟩ := resolves_iff.mp hresolves
  have hmem : countView old ∈ d'.shares := by
    rw [hshares]
    exact List.mem_map.mpr ⟨old, hold, if_pos rfl⟩
  have hcounted := (hd.rows old hold).counted
  have hafter : left old.id d'.shares = remaining (countView old) := left_of_mem hd' hmem
  refine ⟨hmem, rfl, hopen, ?_, ?_, hafter, ?_⟩
  · change 1 ≤ old.viewCount + 1
    omega
  · rw [left_of_mem hd hold, remaining_countView]
    omega
  · rw [remaining_countView, remaining]
    omega

/-- Views that were spent are not negative. -/
theorem outflow_nonneg {tag : ShareTag} (h : ShareCommits tag d d') (hd : Sound d) :
    0 ≤ spent id tag ∧ 0 ≤ forfeited id tag := by
  cases tag with
  | created share => exact ⟨Int.le_refl 0, Int.le_refl 0⟩
  | viewed id' now share =>
    refine ⟨?_, Int.le_refl 0⟩
    rw [spent]
    split
    · decide
    · decide
  | removed rows =>
    exact ⟨Int.le_refl 0, left_nonneg fun x hx => hd.rows x (h.1 x hx)⟩

/-- Without a creation what is left of a share grows no larger. -/
theorem left_le_of_leads (h : Leads d events d')
    (hc : ∀ e ∈ events, ShareCommits e.tag e.before e.after ∧ Sound e.before ∧ Sound e.after)
    (hno : ∀ e ∈ events, ¬ Creates id e) : left id d'.shares ≤ left id d.shares := by
  apply h.le_of_outflow (fun d => left id d.shares) fun tag => spent id tag + forfeited id tag
  · intro e he
    obtain ⟨hcommit, hsound, -⟩ := hc e he
    have hbalance := hcommit.balance hsound id
    have hgranted : granted id e.tag = 0 := by
      cases htag : e.tag with
      | created share =>
        rw [granted, if_neg]
        intro hid
        exact hno e he ⟨share, htag, hid⟩
      | viewed id' now share => rfl
      | removed rows => rfl
    rw [hgranted, Int.add_zero] at hbalance
    exact hbalance
  · intro e he
    obtain ⟨hcommit, hsound, -⟩ := hc e he
    obtain ⟨hspent, hforfeited⟩ : 0 ≤ spent id e.tag ∧ 0 ≤ forfeited id e.tag :=
      outflow_nonneg hcommit hsound
    exact Int.add_nonneg hspent hforfeited

/-- A share is granted ten views at most whenever it is created. -/
theorem sum_granted_le
    (hc : ∀ e ∈ events, ShareCommits e.tag e.before e.after) :
    (events.map fun e => granted id e.tag).sum ≤
      maxViewsLimit * (events.map fun e => creations id e.tag).sum := by
  induction events with
  | nil => exact Int.le_refl 0
  | cons e rest ih =>
    have hrest := ih fun x hx => hc x (List.mem_cons_of_mem e hx)
    have hfirst : granted id e.tag ≤ maxViewsLimit * creations id e.tag := by
      have hcommit := hc e List.mem_cons_self
      cases htag : e.tag with
      | created share =>
        rw [htag] at hcommit
        rw [granted, creations]
        split
        · rw [Int.mul_one]
          exact hcommit.2.2.1.bounded
        · exact Int.le_refl 0
      | viewed id' now share => exact Int.le_refl 0
      | removed rows => exact Int.le_refl 0
    rw [List.map_cons, List.map_cons, List.sum_cons, List.sum_cons, Int.mul_add]
    omega

/-- A share has ten views left at most. -/
theorem left_le (hd : Sound d) (id : Uuid) :
    left id d.shares ≤ maxViewsLimit * if id ∈ d.shares.map (·.id) then 1 else 0 := by
  split
  · rename_i hmem
    obtain ⟨r, hr, rfl⟩ := List.mem_map.mp hmem
    have hok := hd.rows r hr
    have hbounded := hok.bounded
    have hcounted := hok.counted
    rw [left_of_mem hd hr, remaining, Int.mul_one]
    omega
  · rename_i hno
    rw [left_of_forall_ne fun x hx hid => hno (List.mem_map.mpr ⟨x, hx, hid⟩)]
    exact Int.le_refl 0

/-- The spent views are the views. -/
theorem sum_spent (events : List (Event I ShareDb ShareTag)) :
    (events.map fun e => spent id e.tag).sum =
      ((events.filter fun e => decide (spent id e.tag = 1)).length : Int) := by
  induction events with
  | nil => rfl
  | cons e rest ih =>
    rw [List.map_cons, List.sum_cons, ih, List.filter_cons]
    by_cases hone : spent id e.tag = 1
    · rw [hone, decide_eq_true rfl, if_pos rfl, List.length_cons]
      omega
    · have hzero : spent id e.tag = 0 := by
        cases htag : e.tag with
        | created share => rfl
        | viewed id' now share =>
          rw [htag, spent] at hone
          rw [spent, if_neg]
          intro hcond
          exact hone (if_pos hcond)
        | removed rows => rfl
      rw [hzero, decide_eq_false (by decide), Int.zero_add]
      rfl

/-- A share that a call creates is the one of its body. -/
def CreatedBy (call : ShareCall) (tag : ShareTag) : Prop :=
  ∀ share, tag = .created share → ∃ shareId userId clock req,
    call = .create shareId userId clock req ∧ newShare shareId userId clock req = .ok share

/-- The commits of a call create the share of its body at most. -/
theorem request_labels (call : ShareCall) : call.request.Labels (CreatedBy call) := by
  cases call with
  | create shareId userId clock req =>
    rw [ShareCall.request, createShare]
    split
    · trivial
    · rename_i share hnew
      rw [autocommit, Prog.bind_bind]
      apply (neverCommits_insert _ _).labels.bind
      intro _
      refine ⟨?_, trivial⟩
      intro share' htag
      cases htag
      exact ⟨shareId, userId, clock, req, rfl, hnew⟩
  | list userId now => exact fun _ => trivial
  | delete userId shareId =>
    rw [ShareCall.request, deleteShare, autocommit, Prog.bind_bind]
    apply (neverCommits_delete _).labels.bind
    intro rows
    rw [Prog.commit_bind, Prog.ret_bind]
    refine ⟨fun share htag => ?_, ?_⟩
    · cases htag
    · split
      · trivial
      · trivial
  | view shareId now =>
    rw [ShareCall.request, viewShare, consumeView, autocommit, Prog.bind_bind, Prog.bind_bind]
    apply (neverCommits_update _ _ _).labels.bind
    intro rows
    rw [Prog.commit_bind, Prog.ret_bind, Prog.ret_bind]
    refine ⟨fun share htag => ?_, ?_⟩
    · cases htag
    · cases rows with
      | nil => trivial
      | cons r rest => trivial
  | deleteExpired now =>
    refine fun s n => ⟨fun share htag => ?_, trivial⟩
    cases htag

variable [DecidableEq I] [Fintype I] {calls : I → ShareCall} {s' : ShareState I}
  {sched : List (I × Act)}

/-- Every commit of a run is one of those that were promised, from a sound database. -/
theorem history_commits (hd : Sound d) (h : (startCalls d calls).exec sched = some s') :
    ∀ e ∈ (startCalls d calls).history sched,
      ShareCommits e.tag e.before e.after ∧ Sound e.before ∧ Sound e.after := by
  have hgood : shareSpec.Good (fun _ _ _ => True) (startCalls d calls) :=
    Spec.Good.start hd fun i => request_keeps (calls i)
  have hcommits : (startCalls d calls).Commits shareSpec.allow sched :=
    State.commits_of_history h fun _ _ => trivial
  intro e he
  obtain ⟨hbefore, hafter, -⟩ := hgood.guar_of_mem_history hcommits h e he
  exact ⟨(hgood.exec hcommits h).2.2 e he, hbefore, hafter⟩

/-- A link that was read is one of the views that were spent. -/
theorem card_readers_le (h : (startCalls d calls).exec sched = some s') (readers : Finset I)
    (hr : ∀ i ∈ readers, ∃ now response, calls i = .view id now ∧
      (s'.procs i).prog = .ret (.viewed response)) :
    (readers.card : Int) ≤
      (((startCalls d calls).history sched).map fun e => spent id e.tag).sum := by
  have hsub : readers ⊆ Finset.univ.filter fun i =>
      ∃ r ∈ (startCalls d calls).taken viewTaken i sched, r.1 = id := by
    intro i hi
    obtain ⟨now, response, hcall, hout⟩ := hr i hi
    obtain ⟨share, htaken, -⟩ := State.yields_of_answer (i := i) h (request_yields (calls i)) hout
      id now response hcall rfl
    rw [List.nil_append] at htaken
    refine Finset.mem_filter.mpr ⟨Finset.mem_univ i, (id, now, share), ?_, rfl⟩
    rw [htaken]
    exact List.mem_cons_self
  have htakes : ∀ tag, ∀ r ∈ viewTaken tag, r.1 = id → spent id tag = 1 := by
    intro tag r hr hid
    cases tag with
    | created share => cases hr
    | removed rows => cases hr
    | viewed id' now share =>
      cases share with
      | none => cases hr
      | some share =>
        cases hr
        exact if_pos ⟨hid, rfl⟩
  have hcard := (Finset.card_le_card hsub).trans (State.card_takers_le htakes)
  rw [sum_spent]
  exact Int.ofNat_le.mpr hcard

/-- In every interleaving of calls the views of a share are accounted for, and its links are read
no more often than it was granted views. -/
theorem viewsCounted_of_exec (calls : I → ShareCall) (hd : Sound d)
    (h : (startCalls d calls).exec sched = some s') :
    ViewsCounted calls (startCalls d calls) sched s' := by
  have hcommits := history_commits hd h
  have hleads := State.leads h
  have hconserved := fun id => hleads.balance (fun d => left id d.shares) (granted id)
    (fun tag => spent id tag + forfeited id tag) fun e he =>
      (hcommits e he).1.balance (hcommits e he).2.1 id
  refine ⟨hconserved, ?_, ?_, ?_⟩
  · intro id readers hreaders
    have hcard := card_readers_le h readers hreaders
    have hall := hconserved id
    have hsplit : (((startCalls d calls).history sched).map fun e =>
        spent id e.tag + forfeited id e.tag).sum =
          (((startCalls d calls).history sched).map fun e => spent id e.tag).sum +
            (((startCalls d calls).history sched).map fun e => forfeited id e.tag).sum :=
      List.sum_map_add
    have hforfeited : 0 ≤ (((startCalls d calls).history sched).map fun e =>
        forfeited id e.tag).sum := by
      apply List.sum_nonneg
      intro n hn
      obtain ⟨e, he, rfl⟩ := List.mem_map.mp hn
      exact (outflow_nonneg (hcommits e he).1 (hcommits e he).2.1).2
    have hend : 0 ≤ left id s'.db.shares := by
      have hsound : Sound s'.db := hleads.invariant hd fun e he _ => (hcommits e he).2.2
      exact left_nonneg hsound.rows
    rw [hsplit] at hall
    change (readers.card : Int) ≤ left id (startCalls d calls).db.shares + _
    omega
  · intro id
    have hstart := left_le hd id
    have hsum : (((startCalls d calls).history sched).map fun e => granted id e.tag).sum ≤
        maxViewsLimit * (((startCalls d calls).history sched).map fun e =>
          creations id e.tag).sum := sum_granted_le fun e he => (hcommits e he).1
    rw [Int.mul_add]
    exact Int.add_le_add hstart hsum
  · intro before e mid e' after hsplit id now share now' share' htag htag' hmid
    have hmem : e ∈ (startCalls d calls).history sched := by simp [hsplit]
    have hmem' : e' ∈ (startCalls d calls).history sched := by simp [hsplit]
    obtain ⟨hcommit, hbefore, hafter⟩ := hcommits e hmem
    obtain ⟨hcommit', hbefore', hafter'⟩ := hcommits e' hmem'
    rw [htag] at hcommit
    rw [htag'] at hcommit'
    obtain ⟨-, -, -, -, -, hleft, -⟩ := hcommit.viewed hbefore hafter
    obtain ⟨-, -, -, -, hleft', -, -⟩ := hcommit'.viewed hbefore' hafter'
    rw [hsplit] at hleads hcommits
    have hle := left_le_of_leads hleads.split.2.split.1
      (fun x hx => hcommits x (by simp [hx])) hmid
    omega

/-- In every interleaving of calls a link reveals a share that was created, as it was created,
before it expires, and never one that was deleted. -/
theorem viewsAuthentic_of_exec (calls : I → ShareCall) (hd : Sound d)
    (h : (startCalls d calls).exec sched = some s') :
    ViewsAuthentic calls (startCalls d calls) sched s' := by
  have hcommits := history_commits hd h
  have hleads := State.leads h
  constructor
  · intro i id now response hcall hout
    obtain ⟨share, htaken, hresponse⟩ := State.yields_of_answer (i := i) h
      (request_yields (calls i)) hout id now response hcall rfl
    rw [List.nil_append] at htaken
    have hmem : (id, now, share) ∈ (startCalls d calls).taken viewTaken i sched := by
      rw [htaken]
      exact List.mem_cons_self
    obtain ⟨e, he, hproc, htag⟩ := State.mem_taken.mp hmem
    refine ⟨e, he, hproc, share, ?_, hresponse⟩
    cases htag' : e.tag with
    | created r =>
      rw [htag'] at htag
      cases htag
    | removed rows =>
      rw [htag'] at htag
      cases htag
    | viewed id' now' share' =>
      rw [htag'] at htag
      cases share' with
      | none => cases htag
      | some share' =>
        cases htag
        rfl
  · intro before e after hsplit id now share htag
    obtain ⟨hcommit, hbefore, hafter⟩ := hcommits e (by simp [hsplit])
    have hcommit' := hcommit
    rw [htag] at hcommit'
    obtain ⟨hmem, hid, hopen, hcount, -, -, hleft⟩ := hcommit'.viewed hbefore hafter
    refine ⟨hid, hopen, hcount, hleft, ?_⟩
    rcases hcommit.origin hmem with ⟨r, hr, hsame⟩ | hcreated
    · rw [hsplit] at hleads hcommits
      rcases origin_of_leads hleads.split.1
        (fun x hx => (hcommits x (List.mem_append_left _ hx)).1) r hr with
        ⟨r₀, hr₀, hsame₀⟩ | ⟨e₀, he₀, r₀, htag₀, hsame₀⟩
      · exact .inl ⟨r₀, hr₀, hsame₀.trans hsame⟩
      · exact .inr ⟨e₀, he₀, r₀, htag₀, hsame₀.trans hsame⟩
    · rw [htag] at hcreated
      cases hcreated
  · intro before e after hsplit rows r htag hr hno e' he' now share htag'
    obtain ⟨hcommit, -, -⟩ := hcommits e (by simp [hsplit])
    rw [htag] at hcommit
    have hgone : left r.id e.after.shares = 0 := by
      apply left_of_forall_ne
      intro x hx hxid
      rw [hcommit.2, List.mem_filter, hxid] at hx
      exact of_decide_eq_true hx.2 (List.mem_map_of_mem hr)
    obtain ⟨mid, rest, rfl⟩ := List.append_of_mem he'
    obtain ⟨hcommit', hbefore', hafter'⟩ := hcommits e' (by simp [hsplit])
    rw [htag'] at hcommit'
    obtain ⟨-, -, -, -, hleft', -, hpos⟩ := hcommit'.viewed hbefore' hafter'
    rw [hsplit] at hleads hcommits
    have hle := left_le_of_leads hleads.split.2.split.1
      (fun x hx => hcommits x (by simp [hx])) fun x hx => hno x (List.mem_append_left _ hx)
    omega

end Runs

/-- A share with one view left. -/
def oneViewLeft : ShareDb where
  users := [1]
  shares := [{ id := 7, userId := 1, blob := List.replicate 16 0, blobIv := List.replicate 12 0,
               labelBlob := List.replicate 16 0, labelIv := List.replicate 12 0, maxViews := 2,
               viewCount := 1, expiresAt := 100, createdAt := 0 }]

/-- It is sound. -/
theorem sound_oneViewLeft : Sound oneViewLeft := by
  constructor
  · exact List.nodup_singleton _
  · intro r hr
    rw [List.mem_singleton.mp hr]
    exact ⟨by decide, by decide, by decide, by decide⟩

/-- Two views of the share, and the owner who revokes it. -/
def readersAndOwner (i : Fin 3) : ShareCall :=
  if i.val = 2 then .delete 1 7 else .view 7 50

/-- Both views read the share before one of them counts, and the share is deleted in the end. -/
def readersMeet : List (Fin 3 × Act) := Act.inTurn [(0, 1), (1, 1), (0, 2), (1, 2), (2, 3)]

/-- The schedule is possible. -/
theorem exists_readersMeet :
    ∃ s', (startCalls oneViewLeft readersAndOwner).exec readersMeet = some s' := by
  have hrun : ((startCalls oneViewLeft readersAndOwner).exec readersMeet).isSome = true := by
    decide
  exact Option.isSome_iff_exists.mp hrun

/-- Of two views one is counted. -/
theorem viewsCounted_of_exec_readers :
    ∃ s', (startCalls oneViewLeft readersAndOwner).exec readersMeet = some s' ∧
      ViewsCounted readersAndOwner (startCalls oneViewLeft readersAndOwner) readersMeet s' := by
  obtain ⟨s', hs'⟩ := exists_readersMeet
  exact ⟨s', hs', viewsCounted_of_exec readersAndOwner sound_oneViewLeft hs'⟩

/-- What the view reveals is the share, which is gone when its owner has revoked it. -/
theorem viewsAuthentic_of_exec_readers :
    ∃ s', (startCalls oneViewLeft readersAndOwner).exec readersMeet = some s' ∧
      ViewsAuthentic readersAndOwner (startCalls oneViewLeft readersAndOwner) readersMeet s' := by
  obtain ⟨s', hs'⟩ := exists_readersMeet
  exact ⟨s', hs', viewsAuthentic_of_exec readersAndOwner sound_oneViewLeft hs'⟩

end Shares

end Nopass
