import Prgd.ApiError
import Prgd.Interleaving
import Prgd.Callers
import Prgd.Approvals
import Prgd.Text
import Prgd.IpAddress
import Prgd.NetGuard
import Prgd.JsNumber
import Prgd.JsValue
import Prgd.Encoding
import Prgd.JsonColumn
import Prgd.Redactor
import Prgd.ModelUsage
import Prgd.Template
import Prgd.Expression
import Prgd.Record
import Prgd.Workflow
import Prgd.Checkpoint
import Prgd.Walk
import Prgd.Lockstep
import Prgd.Resume
import Prgd.RunMachine
import Prgd.RunOrder
import Prgd.RunFinality
import Prgd.RunFreshness
import Prgd.RunOnce
import Prgd.Spend
import Prgd.SpendLimit
import Prgd.Idempotency
import Prgd.Billing
import Prgd.Refunds
import Prgd.Metering
import Prgd.Table
import Prgd.Calendar
import Prgd.Rating
import Prgd.RowLock
import Prgd.Invoicing
import Prgd.Issuing
import Prgd.IssuedOnce
import Prgd.BackOffice
import Prgd.Ledger
import Prgd.InvoiceRecords
import Prgd.PrepaidCredit
import Prgd.SqlGuard
import Prgd.AllowedTables
import Prgd.Cron
import Prgd.Grants
import Prgd.GrantLife
import Prgd.GrantTrail
import Prgd.Certificates
import Prgd.TerminalTokens
import Prgd.Contracts
import Prgd.Agenda
import Prgd.Trust
import Prgd.Dunning
import Prgd.AbuseSuspension
import Prgd.Reinstatement
import Prgd.WorkLogs
import Prgd.BilledOnce
import Prgd.Timesheets
import Prgd.Timers
import Prgd.Payouts
import Prgd.Scheduler
import Prgd.HostCapacity
import Prgd.SpreadGroups
import Prgd.Compute
import Prgd.StuckServers
import Prgd.HostCounters
import Prgd.AddressOwners
import Prgd.OneAddress
import Prgd.PrivateNetworks
import Prgd.Quotas
import Prgd.Meters
import Prgd.TwoMeters
import Prgd.Bandwidth
import Prgd.Tokens
import Prgd.TokenChains
import Prgd.Credentials
import Prgd.OneTimeUse
import Prgd.Masking
import Prgd.TerminalRedactor
import Prgd.Linking
import Prgd.SignInTickets
import Prgd.Webhooks
import Prgd.HostJobs
import Prgd.ReverseDns
import Prgd.ZoneSync
import Prgd.FallibleCalls
import Prgd.IpFilter
import Prgd.Recordings
import Prgd.PreHijacking
import Prgd.SqlLexing
import Prgd.MongoGuard
import Prgd.ConnectionAuth
import Prgd.AddressSpelling
import Prgd.AgentLoop
import Prgd.WebhookTargets
import Prgd.TopoOrder
import Prgd.Activation
import Prgd.Validation
import Prgd.Blueprints
import Prgd.Grammar
import Prgd.Spelling
import Prgd.PublicRuns
import Prgd.Proration
import Prgd.Renewals
import Prgd.NightMinutes
import Prgd.Firewalls
import Prgd.CronGrammar
import Prgd.NextRun
import Prgd.PublicAddresses
import Prgd.IpAllowlist
import Prgd.Decoding
import Prgd.SshCertificates
import Prgd.Credits
import Prgd.HostKeys
import Prgd.HostFirewall
import Prgd.CreateVm
import Prgd.SudoResponder
import Prgd.Words
import Prgd.Haproxy
import Prgd.DnsRecords
import Prgd.Overage
import Prgd.CivilDate
import Prgd.OpenHours
import Prgd.SlaCalculator
import Prgd.StepLimit
