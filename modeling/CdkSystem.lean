import CdkSystem.Addresses
import CdkSystem.Admin
import CdkSystem.Archives
import CdkSystem.BatchForm
import CdkSystem.BatchRedeem
import CdkSystem.ClientIP
import CdkSystem.CodeList
import CdkSystem.Converter
import CdkSystem.Export
import CdkSystem.Faq
import CdkSystem.Front
import CdkSystem.Go
import CdkSystem.GoTime
import CdkSystem.Integers
import CdkSystem.Inventory
import CdkSystem.Js
import CdkSystem.JsValue
import CdkSystem.Json
import CdkSystem.JsonValue
import CdkSystem.Lib.Alone
import CdkSystem.Lib.Base64
import CdkSystem.Lib.Closing
import CdkSystem.Lib.Decimal
import CdkSystem.Lib.FirstOccurrences
import CdkSystem.Lib.Frame
import CdkSystem.Lib.Ledger
import CdkSystem.Lib.Outline
import CdkSystem.Lib.Paging
import CdkSystem.Lib.Prog
import CdkSystem.Lib.Progress
import CdkSystem.Lib.RowLock
import CdkSystem.Lib.Separated
import CdkSystem.Lib.Table
import CdkSystem.Lib.Trace
import CdkSystem.Lib.Traces
import CdkSystem.Lib.Trimming
import CdkSystem.Lib.Triple
import CdkSystem.Listing
import CdkSystem.Migration
import CdkSystem.Password
import CdkSystem.Proof.Administering
import CdkSystem.Proof.Alone
import CdkSystem.Proof.BatchRedeeming
import CdkSystem.Proof.Claiming
import CdkSystem.Proof.Closed
import CdkSystem.Proof.Delivering
import CdkSystem.Proof.Evolution
import CdkSystem.Proof.Exec
import CdkSystem.Proof.FrontRules
import CdkSystem.Proof.FrontRuns
import CdkSystem.Proof.Importing
import CdkSystem.Proof.Integrity
import CdkSystem.Proof.JsonTexts
import CdkSystem.Proof.Leasing
import CdkSystem.Proof.Limiting
import CdkSystem.Proof.Locking
import CdkSystem.Proof.Mirroring
import CdkSystem.Proof.Ordering
import CdkSystem.Proof.Protocol
import CdkSystem.Proof.Redeeming
import CdkSystem.Proof.Reporting
import CdkSystem.Proof.Rules
import CdkSystem.Proof.Running
import CdkSystem.Proof.Transitions
import CdkSystem.Proof.Webhooks
import CdkSystem.Queries
import CdkSystem.RateLimit
import CdkSystem.Redeem
import CdkSystem.Runtime
import CdkSystem.Schema
import CdkSystem.Spec
import CdkSystem.Ssrf
import CdkSystem.System
import CdkSystem.Text
import CdkSystem.Theorems.AccountTexts
import CdkSystem.Theorems.Accounting
import CdkSystem.Theorems.AdminAccess
import CdkSystem.Theorems.Admission
import CdkSystem.Theorems.Archives
import CdkSystem.Theorems.BatchExpiry
import CdkSystem.Theorems.BatchRefinement
import CdkSystem.Theorems.BatchReplays
import CdkSystem.Theorems.Capacity
import CdkSystem.Theorems.ClientAddresses
import CdkSystem.Theorems.CodeLists
import CdkSystem.Theorems.CodeStates
import CdkSystem.Theorems.ConvertedAccounts
import CdkSystem.Theorems.CreatedBatches
import CdkSystem.Theorems.CredentialInventory
import CdkSystem.Theorems.CredentialPages
import CdkSystem.Theorems.CredentialUploads
import CdkSystem.Theorems.Credentials
import CdkSystem.Theorems.Deadlocks
import CdkSystem.Theorems.DeliveryAttempts
import CdkSystem.Theorems.Denials
import CdkSystem.Theorems.ExportedCodes
import CdkSystem.Theorems.FaqOrder
import CdkSystem.Theorems.LeaseFencing
import CdkSystem.Theorems.ListPages
import CdkSystem.Theorems.LiveEvents
import CdkSystem.Theorems.Migrations
import CdkSystem.Theorems.Passwords
import CdkSystem.Theorems.RateLimits
import CdkSystem.Theorems.RedeemEffects
import CdkSystem.Theorems.RequestHashes
import CdkSystem.Theorems.SingleIdempotency
import CdkSystem.Theorems.StatusMirror
import CdkSystem.Theorems.WebhookDetails
import CdkSystem.Theorems.WebhookTargets
import CdkSystem.Upload
import CdkSystem.Utf8
import CdkSystem.Webhook
