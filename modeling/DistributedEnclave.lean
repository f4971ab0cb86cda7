import DistributedEnclave.AlarmClock
import DistributedEnclave.Atls.Bootstrap
import DistributedEnclave.Atls.Client
import DistributedEnclave.Atls.Framing
import DistributedEnclave.Atls.IssuingCA
import DistributedEnclave.Atls.Measurement
import DistributedEnclave.Atls.Server
import DistributedEnclave.Atls.ServerIdentity
import DistributedEnclave.Atls.WorkerSettings
import DistributedEnclave.Attest.Dispatch
import DistributedEnclave.Attest.Enrollment
import DistributedEnclave.Attest.Flow
import DistributedEnclave.Attest.Forgeries
import DistributedEnclave.Attest.Hostile
import DistributedEnclave.Attest.Progress
import DistributedEnclave.Attest.Tags
import DistributedEnclave.Attest.TaskProtocol
import DistributedEnclave.Attest.VerifyCommand
import DistributedEnclave.Attest.WorkerHandshake
import DistributedEnclave.Bench.Channel
import DistributedEnclave.Bench.CommandLine
import DistributedEnclave.Bench.Dgemm
import DistributedEnclave.Bench.Job
import DistributedEnclave.Bench.Session
import DistributedEnclave.Binary64
import DistributedEnclave.Blocks
import DistributedEnclave.Budgets
import DistributedEnclave.Chains
import DistributedEnclave.CheckedInts
import DistributedEnclave.Cluster.KeyFiles
import DistributedEnclave.Cluster.OwnerKeygen
import DistributedEnclave.Cluster.Primitives
import DistributedEnclave.Cluster.ResultsFile
import DistributedEnclave.Cluster.SnpClaims
import DistributedEnclave.Cluster.SnpReport
import DistributedEnclave.Congruential
import DistributedEnclave.Decimals
import DistributedEnclave.Ea.Acceptance
import DistributedEnclave.Ea.Attestation
import DistributedEnclave.Ea.Authenticator
import DistributedEnclave.Ea.Builders
import DistributedEnclave.Ea.Canonical
import DistributedEnclave.Ea.Creation
import DistributedEnclave.Ea.FailedCalls
import DistributedEnclave.Ea.Frames
import DistributedEnclave.Ea.Messages
import DistributedEnclave.Ea.NoPanic
import DistributedEnclave.Ea.Phases
import DistributedEnclave.Ea.Policy
import DistributedEnclave.Ea.RequestExtensions
import DistributedEnclave.Ea.RequestGrammar
import DistributedEnclave.Ea.RoundTrip
import DistributedEnclave.Ea.Session
import DistributedEnclave.Ea.SharedOptions
import DistributedEnclave.Ea.Soundness
import DistributedEnclave.Ea.Spontaneous
import DistributedEnclave.Ea.Transcripts
import DistributedEnclave.Ea.Wire
import DistributedEnclave.Exchanges
import DistributedEnclave.Fields
import DistributedEnclave.Files
import DistributedEnclave.Hex
import DistributedEnclave.Links
import DistributedEnclave.Npb.Admission
import DistributedEnclave.Npb.Agreement
import DistributedEnclave.Npb.BenchmarkOutcome
import DistributedEnclave.Npb.Benchmarks
import DistributedEnclave.Npb.CgPartition
import DistributedEnclave.Npb.CgProduct
import DistributedEnclave.Npb.CgService
import DistributedEnclave.Npb.DeadlineSignals
import DistributedEnclave.Npb.Delivery
import DistributedEnclave.Npb.Duality
import DistributedEnclave.Npb.Enrollment
import DistributedEnclave.Npb.EpGenerator
import DistributedEnclave.Npb.EpTally
import DistributedEnclave.Npb.Handshake
import DistributedEnclave.Npb.JobCost
import DistributedEnclave.Npb.Kernels
import DistributedEnclave.Npb.KeyAgreement
import DistributedEnclave.Npb.Messages
import DistributedEnclave.Npb.NonceBudget
import DistributedEnclave.Npb.Options
import DistributedEnclave.Npb.RandomChase
import DistributedEnclave.Npb.SecureChannel
import DistributedEnclave.Npb.Service
import DistributedEnclave.Npb.TaskTokens
import DistributedEnclave.Npb.Taskq
import DistributedEnclave.Npb.TaskqCost
import DistributedEnclave.Npb.TaskqDispatch
import DistributedEnclave.Npb.TaskqOutcome
import DistributedEnclave.Npb.TaskqService
import DistributedEnclave.Npb.Timeouts
import DistributedEnclave.Npb.Transfer
import DistributedEnclave.Npb.TransportLimits
import DistributedEnclave.Npb.WaitScopes
import DistributedEnclave.Octets
import DistributedEnclave.OneShot
import DistributedEnclave.Outcome
import DistributedEnclave.Parties
import DistributedEnclave.Pieces
import DistributedEnclave.Programs
import DistributedEnclave.Ray.CgActors
import DistributedEnclave.Ray.RandomChase
import DistributedEnclave.Ray.StreamProgress
import DistributedEnclave.Ray.StreamRounds
import DistributedEnclave.Ray.StreamTriad
import DistributedEnclave.Rendezvous
import DistributedEnclave.Repeat
import DistributedEnclave.Rounding
import DistributedEnclave.Scopes
import DistributedEnclave.Shell
import DistributedEnclave.Stdio
import DistributedEnclave.Streams
import DistributedEnclave.Symbolic
import DistributedEnclave.Tickets
import DistributedEnclave.Transition
import DistributedEnclave.XorMaps
