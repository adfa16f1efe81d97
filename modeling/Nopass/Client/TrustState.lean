import Nopass.Client.Envelope
import Nopass.Core.OrderedMap
import Nopass.Core.Run
import Nopass.Core.SharedRecord

/-!
# The trust state of an account on one browser

Four records under the account's name in `localStorage`: the highest revision seen of
each item, the pinned identity keys, the highest epoch accepted of each organization's
key, and what was seen of each organization. Every store that is opened over a record
holds its own copy of it and writes the whole copy back. Before, revisions and pins were
kept under ids that the server gave; an account takes over the old records whose id it
recorded and no other account did. `localStorage` takes every write here, and no id from
the server spells the name of a new record, which is a MAC under the account's key.
-/

namespace Nopass

/-- `AccountIds`: what the server gave this account at unlock. -/
structure AccountIds where
  vaultId : Option String
  userId : Option String

/-- `TrustIndex`: the legacy ids that each account recorded. -/
abbrev TrustIndex := List (String × List String)

/-- `recordLegacyIds`. -/
def recordLegacyIds (index : TrustIndex) (trustId : String) (ids : List (Option String)) :
    TrustIndex :=
  let known := (((index.lookup trustId).getD []) ++ ids.filterMap truthy).eraseDups
  if index.any fun e => decide (e.1 = trustId) then
    index.map fun e => if e.1 = trustId then (trustId, known) else e
  else index ++ [(trustId, known)]

/-- `key.startsWith(prefix)`, with the rest of the key. -/
def legacyId? (keyPrefix key : String) : Option String :=
  if keyPrefix.toList.isPrefixOf key.toList then
    some (String.ofList (key.toList.drop keyPrefix.length))
  else none

/-- `ownLegacyKeys`: the legacy keys that belong to this account and to no other. -/
def ownLegacyKeys (index : TrustIndex) (trustId : String) (keys : List String)
    (keyPrefix : String) : List String :=
  let mine := (index.lookup trustId).getD []
  let others := (index.filter fun e => decide (e.1 ≠ trustId)).flatMap (·.2)
  keys.filter fun key => (legacyId? keyPrefix key).any fun id =>
    mine.contains id && !others.contains id

/-- What `takeLegacyRecords` returns and leaves. -/
structure LegacyTake (T : Type) where
  taken : List T
  index : TrustIndex
  left : List (String × T)

/-- `takeLegacyRecords`: record the account's ids, then take its own records away. -/
def takeLegacyRecords {T : Type} (keyPrefix trustId : String) (accountIds : Option AccountIds)
    (index : TrustIndex) (records : List (String × T)) : LegacyTake T :=
  let index := match accountIds with
    | some ids => recordLegacyIds index trustId [ids.vaultId, ids.userId]
    | none => index
  let own := ownLegacyKeys index trustId (records.map (·.1)) keyPrefix
  { taken := own.filterMap fun key => records.lookup key
    index := index
    left := records.filter fun r => !own.contains r.1 }

/-- The load of `openRevisionStore`: each revision of the legacy records is recorded. -/
def MemoryRevisionStore.recordAll (store : MemoryRevisionStore)
    (legacy : List (List (String × Nat))) : MemoryRevisionStore :=
  legacy.flatten.foldl (fun store entry => store.record entry.1 entry.2) store

/-- The identity keys pinned for other users. -/
abbrev KeyPins := String → Option String

/-- `pins.set`. -/
def KeyPins.set (pins : KeyPins) (userId identityKey : String) : KeyPins := fun id =>
  if id = userId then some identityKey else pins id

/-- `pins[userId] ??= identityKey`; what every object inherits is there already. -/
def KeyPins.setIfUnset (pins : KeyPins) (userId identityKey : String) : KeyPins :=
  if userId ∈ objectPrototype ∨ (pins userId).isSome then pins
  else KeyPins.set pins userId identityKey

/-- The load of `openKeyPinStore`: a pin of the record wins over one of a legacy record. -/
def KeyPins.setAll (pins : KeyPins) (legacy : List (List (String × String))) : KeyPins :=
  legacy.flatten.foldl (fun pins entry => KeyPins.setIfUnset pins entry.1 entry.2) pins

/-- The highest epoch accepted of each organization's key. -/
abbrev OrgEpochs := String → Option Nat

/-- `record` of the store of `openOrgEpochStore`, none when nothing is written. -/
def OrgEpochs.record? (epochs : OrgEpochs) (orgId : String) (epoch : Nat) : Option OrgEpochs :=
  if epoch ≤ (epochs orgId).getD 0 then none
  else some fun id => if id = orgId then some epoch else epochs id

/-- `OrgLedgerEntry`. -/
structure OrgLedgerEntry where
  items : List String := []
  members : List String := []
  deriving DecidableEq

/-- What was seen of each organization. -/
abbrev OrgLedger := String → OrgLedgerEntry

/-- An entry after `remember`. -/
def OrgLedgerEntry.remember (e seen : OrgLedgerEntry) : OrgLedgerEntry where
  items := (e.items ++ seen.items).eraseDups
  members := (e.members ++ seen.members).eraseDups

/-- An entry after `forget`. -/
def OrgLedgerEntry.forget (e gone : OrgLedgerEntry) : OrgLedgerEntry where
  items := e.items.filter fun id => !gone.items.contains id
  members := e.members.filter fun id => !gone.members.contains id

/-- A change to the entry of one organization. -/
def OrgLedger.update (ledger : OrgLedger) (orgId : String)
    (change : OrgLedgerEntry → OrgLedgerEntry) : OrgLedger := fun id =>
  if id = orgId then change (ledger id) else ledger id

/-- What `localStorage` holds for an account, apart from the records of the stores. -/
structure LegacyRecords where
  index : TrustIndex
  revisions : List (String × List (String × Nat))
  pins : List (String × List (String × String))

/-- What `localStorage` holds for an account. -/
structure TrustRecords where
  revisions : MemoryRevisionStore
  pins : KeyPins
  epochs : OrgEpochs
  ledger : OrgLedger
  legacy : LegacyRecords

/-- The records and the stores that are open over them, in this tab and in others. -/
structure TrustWorld where
  revisions : SharedRecord MemoryRevisionStore
  pins : SharedRecord KeyPins
  epochs : SharedRecord OrgEpochs
  ledger : SharedRecord OrgLedger
  legacy : LegacyRecords

/-- No store is open. -/
def TrustRecords.noneOpen (records : TrustRecords) : TrustWorld where
  revisions := { persisted := records.revisions, copies := [] }
  pins := { persisted := records.pins, copies := [] }
  epochs := { persisted := records.epochs, copies := [] }
  ledger := { persisted := records.ledger, copies := [] }
  legacy := records.legacy

/-- The operations; a store is named by its place in the order in which those of its kind were
opened. -/
inductive TrustEvent where
  | openRevisionStore (accountIds : Option AccountIds)
  | record (store : Nat) (itemId : String) (revision : Nat)
  /-- Also what `applyV2OnlyMarker` and `publishV2Only` do. -/
  | markV2Only (store : Nat)
  | openKeyPinStore (accountIds : Option AccountIds)
  | setPin (store : Nat) (userId identityKey : String)
  | openOrgEpochStore
  | recordEpoch (store : Nat) (orgId : String) (epoch : Nat)
  | openOrgLedger
  | remember (store : Nat) (orgId : String) (seen : OrgLedgerEntry)
  | forget (store : Nat) (orgId : String) (gone : OrgLedgerEntry)
  /-- Other accounts on this browser take records and record ids. -/
  | otherAccounts (legacy : LegacyRecords)

/-- One operation of the account `trustId`. -/
def TrustWorld.step (trustId : String) (w : TrustWorld) : TrustEvent → Option TrustWorld
  | .openRevisionStore accountIds =>
    let take := takeLegacyRecords "nopass:item-revisions:" trustId accountIds w.legacy.index
      w.legacy.revisions
    some { w with
      revisions := w.revisions.opened (·.recordAll take.taken)
      legacy := { w.legacy with index := take.index, revisions := take.left } }
  | .record store itemId revision =>
    (w.revisions.write store (·.record? itemId revision)).map fun revisions =>
      { w with revisions := revisions }
  | .markV2Only store =>
    (w.revisions.write store (·.markV2Only?)).map fun revisions =>
      { w with revisions := revisions }
  | .openKeyPinStore accountIds =>
    let take := takeLegacyRecords "nopass:key-pins:" trustId accountIds w.legacy.index w.legacy.pins
    some { w with
      pins := w.pins.opened (KeyPins.setAll · take.taken)
      legacy := { w.legacy with index := take.index, pins := take.left } }
  | .setPin store userId identityKey =>
    (w.pins.write store fun pins => some (KeyPins.set pins userId identityKey)).map fun pins =>
      { w with pins := pins }
  | .openOrgEpochStore => some { w with epochs := w.epochs.opened id }
  | .recordEpoch store orgId epoch =>
    (w.epochs.write store (OrgEpochs.record? · orgId epoch)).map fun epochs =>
      { w with epochs := epochs }
  | .openOrgLedger => some { w with ledger := w.ledger.opened id }
  | .remember store orgId seen =>
    (w.ledger.write store fun ledger =>
      some (OrgLedger.update ledger orgId (·.remember seen))).map fun ledger =>
      { w with ledger := ledger }
  | .forget store orgId gone =>
    (w.ledger.write store fun ledger =>
      some (OrgLedger.update ledger orgId (·.forget gone))).map fun ledger =>
      { w with ledger := ledger }
  | .otherAccounts legacy => some { w with legacy := legacy }

end Nopass
