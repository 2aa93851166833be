import Egress.Limiter.Queue
import Egress.Main
import Egress.Proofs.Cache.Keys
import Egress.Proofs.Limiter.Windows
import Egress.Proofs.Registry.Servable
import Egress.Proofs.Cache.History
import Egress.Proofs.Metrics.Mirror
import Egress.Proofs.Service.History
import Egress.Proofs.Service.Turns
import Egress.Transport.Scripted
import Egress.Proofs.Service.Memory
import Egress.Proofs.Service.Answers
import Egress.Proofs.Service.Traffic
import Egress.Proofs.Service.Overtaken
import Egress.Proofs.Limiter.Queue
import Egress.Proofs.Retry
import Egress.Proofs.Service.Accounts
import Egress.Proofs.Service.Sweeps
import Egress.Proofs.Service.Isolation
import Egress.Proofs.Service.Transfer
import Egress.Proofs.Call.Target
import Egress.Proofs.Call.Headers
import Egress.Proofs.Call.Outcome
import Egress.Proofs.Limiter.Refusal
import Egress.Proofs.Retry.Delay
import Egress.Proofs.Config.Served
import Egress.Proofs.Registry.Updates
import Egress.Proofs.Service.Checks
import Egress.Proofs.Service.Completion
import Egress.Proofs.Service.BatchResults
import Egress.Proofs.Metrics.Running
import Egress.Proofs.Maintenance
import Egress.Proofs.Metrics.Labels
import Egress.Proofs.Call.Merging
import Egress.Proofs.Cache.Canonical
import Egress.Proofs.Service.Summary
import Egress.Proofs.Call.Received
import Egress.Proofs.Call.Credentials
