import ElGamalVoting.Adapters.ChainBallots
import ElGamalVoting.Adapters.ChainConfig
import ElGamalVoting.Adapters.ChainReads
import ElGamalVoting.Adapters.ChainShares
import ElGamalVoting.Adapters.ChainWrites
import ElGamalVoting.Adapters.HttpClient
import ElGamalVoting.Adapters.HttpReads
import ElGamalVoting.Adapters.HttpWrites
import ElGamalVoting.Adapters.Memory
import ElGamalVoting.Adapters.MemoryAgreement
import ElGamalVoting.Adapters.MemoryBinding
import ElGamalVoting.Adapters.MemoryHistory
import ElGamalVoting.Adapters.MemoryLifecycle
import ElGamalVoting.Adapters.MemorySteps
import ElGamalVoting.Adapters.Postgres
import ElGamalVoting.Adapters.PostgresReadable
import ElGamalVoting.Adapters.PostgresRefinement
import ElGamalVoting.Adapters.PostgresViews
import ElGamalVoting.Adapters.Registration
import ElGamalVoting.Adapters.StallRequests
import ElGamalVoting.Contracts.Ballots
import ElGamalVoting.Contracts.Decryption
import ElGamalVoting.Contracts.Deployed
import ElGamalVoting.Contracts.Election
import ElGamalVoting.Contracts.Lifecycle
import ElGamalVoting.Contracts.MemoryRefinement
import ElGamalVoting.Contracts.Registry
import ElGamalVoting.Contracts.VoteCounters
import ElGamalVoting.Core.Admission
import ElGamalVoting.Core.AdmissionPartition
import ElGamalVoting.Core.AdmissionReturns
import ElGamalVoting.Core.AdmissionWinners
import ElGamalVoting.Core.Aggregation
import ElGamalVoting.Core.Config
import ElGamalVoting.Core.ContentBinding
import ElGamalVoting.Core.DecryptionShares
import ElGamalVoting.Core.DomainSeparation
import ElGamalVoting.Core.Errors
import ElGamalVoting.Core.Quorum
import ElGamalVoting.Core.ResultAgreement
import ElGamalVoting.Core.ShareList
import ElGamalVoting.Core.WeightedSum
import ElGamalVoting.Core.WriteAuth
import ElGamalVoting.Crypto.Attestation
import ElGamalVoting.Crypto.Ballot
import ElGamalVoting.Crypto.BallotCompleteness
import ElGamalVoting.Crypto.BallotMessage
import ElGamalVoting.Crypto.BallotReturns
import ElGamalVoting.Crypto.BallotWire
import ElGamalVoting.Crypto.Dkg
import ElGamalVoting.Crypto.Elgamal
import ElGamalVoting.Crypto.Params
import ElGamalVoting.Crypto.Points
import ElGamalVoting.Crypto.Proofs
import ElGamalVoting.Crypto.Recovery
import ElGamalVoting.Crypto.Schnorr
import ElGamalVoting.Crypto.SpecialSoundness
import ElGamalVoting.Crypto.ThresholdKey
import ElGamalVoting.Crypto.Transcript
import ElGamalVoting.Crypto.TranscriptFraming
import ElGamalVoting.Envelopes.ArtifactCodecs
import ElGamalVoting.Envelopes.Canonical
import ElGamalVoting.Envelopes.CanonicalText
import ElGamalVoting.Envelopes.Codecs
import ElGamalVoting.Envelopes.ConfigCodec
import ElGamalVoting.Envelopes.ConfigInversion
import ElGamalVoting.Envelopes.DecoderErrors
import ElGamalVoting.Envelopes.JsonLoads
import ElGamalVoting.Envelopes.JsonText
import ElGamalVoting.Envelopes.JsonTransport
import ElGamalVoting.Envelopes.RoundTrips
import ElGamalVoting.Envelopes.Types
import ElGamalVoting.Frontend.AdminSign
import ElGamalVoting.Frontend.Canonicalize
import ElGamalVoting.Frontend.RegisterDigest
import ElGamalVoting.Frontend.VerifyAggregate
import ElGamalVoting.Lib.Act
import ElGamalVoting.Lib.Bytes
import ElGamalVoting.Lib.Dict
import ElGamalVoting.Lib.Double
import ElGamalVoting.Lib.Except
import ElGamalVoting.Lib.PowMod
import ElGamalVoting.Lib.Quorum
import ElGamalVoting.Lib.Run
import ElGamalVoting.Lib.SelfDelimiting
import ElGamalVoting.Lib.Shamir
import ElGamalVoting.Lib.Table
import ElGamalVoting.Ports.DataLayer
import ElGamalVoting.Services.AuditCompleteness
import ElGamalVoting.Services.AuditSoundness
import ElGamalVoting.Services.Auditor
import ElGamalVoting.Services.BootstrapWire
import ElGamalVoting.Services.ChainAudit
import ElGamalVoting.Services.CompleteReads
import ElGamalVoting.Services.Coordinator
import ElGamalVoting.Services.CoordinatorScan
import ElGamalVoting.Services.CredentialRecovery
import ElGamalVoting.Services.CredentialSafety
import ElGamalVoting.Services.Credentials
import ElGamalVoting.Services.DkgAttempt
import ElGamalVoting.Services.DkgCeremony
import ElGamalVoting.Services.DkgInbox
import ElGamalVoting.Services.DkgRetry
import ElGamalVoting.Services.ElectionIds
import ElGamalVoting.Services.Eligibility
import ElGamalVoting.Services.Gateway
import ElGamalVoting.Services.HonestElection
import ElGamalVoting.Services.HttpStore
import ElGamalVoting.Services.Keyper
import ElGamalVoting.Services.KeyperEffects
import ElGamalVoting.Services.KeyperPersistence
import ElGamalVoting.Services.KeyperPublish
import ElGamalVoting.Services.KeyperServer
import ElGamalVoting.Services.LatestVote
import ElGamalVoting.Services.NonceScan
import ElGamalVoting.Services.NonceTracker
import ElGamalVoting.Services.PortServer
import ElGamalVoting.Services.Reads
import ElGamalVoting.Services.Tally
import ElGamalVoting.Services.TallyAggregator
import ElGamalVoting.Services.TallyBudget
