import Nopass.Core.Sql.ReadCommitted
import Nopass.Core.Sql.Interference
import Nopass.Core.Sql.Table
import Nopass.Core.Text.Uuid
import Nopass.Server.Schema
import Nopass.Core.Text.Base64
import Nopass.Server.Orgs
import Nopass.Server.OrgEpochs
import Nopass.Server.Vaults
import Nopass.Server.Auth
import Nopass.Server.LastVault
import Nopass.Server.VaultCascade
import Nopass.Server.Recovery
import Nopass.Server.CredentialRotation
import Nopass.Core.Crypto.Aead
import Nopass.Client.AccountKey
import Nopass.Client.PasswordRotation
import Nopass.Client.Identity
import Nopass.Client.OrgTrust
import Nopass.Client.KeyChain
import Nopass.Client.Envelope
import Nopass.Client.Rollback
import Nopass.Client.VaultProvider
import Nopass.Client.LegacyUpgrade
import Nopass.Client.TrustState
import Nopass.Client.TrustForward
import Nopass.Server.EditConflicts
import Nopass.Server.RotationExact
import Nopass.Client.EnvelopeBinding
import Nopass.Core.Unwinding
import Nopass.Server.Throttle
import Nopass.Server.Handshakes
import Nopass.Server.RecoveryTokens
import Nopass.Core.Sql.Versioned
import Nopass.Server.StaleKeys
import Nopass.Client.SyncEngine
import Nopass.Core.Domain
import Nopass.Extension.UrlMatch
import Nopass.Extension.RpId
import Nopass.Extension.VaultLock
import Nopass.Extension.Assertions
import Nopass.Client.Downgrade
import Nopass.Core.Sql.AppendOnly
import Nopass.Core.Sql.Reading
import Nopass.Server.Sync
import Nopass.Client.SyncRuns
import Nopass.Client.SyncPulls
import Nopass.Core.Sql.Bystanders
import Nopass.Core.Sql.Part
import Nopass.Server.AttemptCounts
import Nopass.Server.Logins
import Nopass.Server.LoginFlood
import Nopass.Cli.SecretRefs
import Nopass.Cli.References
import Nopass.Cli.Adopt
import Nopass.Cli.EnvFile
import Nopass.Cli.Adoption
import Nopass.Client.Rotations
import Nopass.Client.RotationPlans
import Nopass.Server.Billing
import Nopass.Server.OrgOwners
import Nopass.Server.MemberLimit
import Nopass.Core.Sql.Requests
import Nopass.Server.Registration
import Nopass.Server.PublishedKeys
import Nopass.Core.Bits
import Nopass.Core.Text.Base32
import Nopass.Client.Totp
import Nopass.Client.RawSignature
import Nopass.Client.RecoveryCode
import Nopass.Client.Webauthn
import Nopass.Client.Attestation
import Nopass.Client.SignedMessages
import Nopass.Server.Backoff
import Nopass.Server.Webhook
import Nopass.Client.LegacyTrust
import Nopass.Core.Sql.Ledger
import Nopass.Server.Shares
import Nopass.Core.Text.UrlText
import Nopass.Client.ShareLink
import Nopass.Core.Crypto.Srp6a
import Nopass.Client.SrpHandshake
import Nopass.Server.Sessions
import Nopass.Extension.Messages
import Nopass.Extension.Autofill
import Nopass.Core.Places
import Nopass.Extension.Consent
import Nopass.Extension.Relay
