import Cyberlegion.Lib.Runs
import Cyberlegion.Lib.Prog
import Cyberlegion.Lib.Commit
import Cyberlegion.Lib.Table
import Cyberlegion.Paths
import Cyberlegion.Lock
import Cyberlegion.LockSound
import Cyberlegion.LockRecovery
import Cyberlegion.FileStore
import Cyberlegion.Mail
import Cyberlegion.MailSound
import Cyberlegion.Hub
import Cyberlegion.Identity
import Cyberlegion.Project
import Cyberlegion.Service
import Cyberlegion.ServiceSpec
import Cyberlegion.Lib.Fencing
import Cyberlegion.ServiceFencing
import Cyberlegion.ServiceTheft
import Cyberlegion.ServiceRefusals
import Cyberlegion.ServiceProgress
import Cyberlegion.Starts
import Cyberlegion.StartsSound
import Cyberlegion.Session
import Cyberlegion.UnitRuntime
import Cyberlegion.Lib.Log
import Cyberlegion.Decommission
import Cyberlegion.Verbs
import Cyberlegion.RuntimeFrame
import Cyberlegion.PaneOwnership
import Cyberlegion.CloseSafety
import Cyberlegion.VerbSpec
import Cyberlegion.RegistrySpec
import Cyberlegion.SpawnLeaks
import Cyberlegion.Standing
import Cyberlegion.Operations
import Cyberlegion.Durable
import Cyberlegion.UnitMemory
import Cyberlegion.CloseHistory
import Cyberlegion.Pruning
import Cyberlegion.PaneIndex
import Cyberlegion.Owners
import Cyberlegion.Addressing
import Cyberlegion.StoreRuns
import Cyberlegion.Migration
import Cyberlegion.ConsumingRuns
import Cyberlegion.ListingRuns
import Cyberlegion.Awaiting
import Cyberlegion.Lib.Decimal
import Cyberlegion.Inbox
import Cyberlegion.InboxOrder
import Cyberlegion.Participants
import Cyberlegion.Pane
import Cyberlegion.Prompt
import Cyberlegion.PromptSound
import Cyberlegion.PromptGuard
import Cyberlegion.PromptGuardSound
import Cyberlegion.Ring
import Cyberlegion.RingSound
import Cyberlegion.RingPosted
import Cyberlegion.Trust
import Cyberlegion.TrustSound
import Cyberlegion.TrustEvidence
import Cyberlegion.Lib.Traced
import Cyberlegion.Restart
import Cyberlegion.RestartSound
import Cyberlegion.Rebind
import Cyberlegion.RebindSound
import Cyberlegion.InstallSound
import Cyberlegion.Lib.Edits
import Cyberlegion.DoorbellSound
import Cyberlegion.DoorbellAim
import Cyberlegion.ProjectRuns
import Cyberlegion.AgentDefSound
import Cyberlegion.RealizeSound
import Cyberlegion.Output
import Cyberlegion.Permission
import Cyberlegion.Lib.Wrapping
import Cyberlegion.RingText
import Cyberlegion.InjectSound
import Cyberlegion.HarnessChecks
import Cyberlegion.PresenceSerial
