import E2Term.Accounts
import E2Term.Base64Codec
import E2Term.BitStringText
import E2Term.Configuration
import E2Term.Counters
import E2Term.EncodeLoop
import E2Term.EpollUnion
import E2Term.ErrorCopies
import E2Term.FailureReports
import E2Term.HexDump
import E2Term.Identity
import E2Term.Indications
import E2Term.Interleaving
import E2Term.LogLevelFile
import E2Term.Loops
import E2Term.NameBuffers
import E2Term.OutcomeReports
import E2Term.Outcomes
import E2Term.Procedures
import E2Term.SendBuffer
import E2Term.ServiceUpdates
import E2Term.SetupNames
import E2Term.SetupPayload
import E2Term.SetupStatus
import E2Term.Streams
import E2Term.TracedActions
import E2Term.BitData
import E2Term.DecodedPdus
import E2Term.ForwardedOctets
import E2Term.PerAdditions
