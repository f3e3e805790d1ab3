import EnterpriseCopilot.Approval.Expiry
import EnterpriseCopilot.Approval.Token
import EnterpriseCopilot.Attachment.Faults
import EnterpriseCopilot.Attachment.Retention
import EnterpriseCopilot.Attachment.Root
import EnterpriseCopilot.Attachment.Scanner
import EnterpriseCopilot.Attachment.Winner
import EnterpriseCopilot.Audit.Upgrade
import EnterpriseCopilot.Auth.Issuer
import EnterpriseCopilot.Contracts.Typed
import EnterpriseCopilot.Observability.Metrics
import EnterpriseCopilot.Plugin.Agreement
import EnterpriseCopilot.Plugin.Ownership
import EnterpriseCopilot.Plugin.Undo
import EnterpriseCopilot.Plugin.Atomic
import EnterpriseCopilot.Approval.Pending
import EnterpriseCopilot.Limits.Throttle
import EnterpriseCopilot.Limits.Shared
import EnterpriseCopilot.Limits.Window
import EnterpriseCopilot.Queue.Enqueue
import EnterpriseCopilot.Queue.Lease
import EnterpriseCopilot.Queue.Producers
import EnterpriseCopilot.Runs.Agreement
import EnterpriseCopilot.Runs.Dangling
import EnterpriseCopilot.Runs.Reads
import EnterpriseCopilot.Runtime.Endpoint
import EnterpriseCopilot.Runtime.Evidence
import EnterpriseCopilot.Runtime.Tracing
import EnterpriseCopilot.Schedule.Overlap
import EnterpriseCopilot.Schedule.Crontab
import EnterpriseCopilot.Schedule.Grammar
import EnterpriseCopilot.Schedule.Horizon
import EnterpriseCopilot.Schedule.Notices
import EnterpriseCopilot.Schedule.Refusal
import EnterpriseCopilot.Schedule.Transitions
import EnterpriseCopilot.Storage.SharedFile
import EnterpriseCopilot.Api.ApprovalTrail
import EnterpriseCopilot.Api.Rate
import EnterpriseCopilot.Worker.Agreement
import EnterpriseCopilot.Worker.Producer
import EnterpriseCopilot.Worker.Stream
