import AdversarialCognition.Lib.Str
import AdversarialCognition.Lib.Dict
import AdversarialCognition.Lib.Date
import AdversarialCognition.Lib.Machine
import AdversarialCognition.Lib.Ranking
import AdversarialCognition.Lib.Sha256
import AdversarialCognition.Lib.Delimited
import AdversarialCognition.Lib.Printing
import AdversarialCognition.Lib.Prog
import AdversarialCognition.Lib.Json
import AdversarialCognition.Lib.RoundTrip
import AdversarialCognition.Lib.Untyped
import AdversarialCognition.Lib.Canonical
import AdversarialCognition.Backend.Core
import AdversarialCognition.Backend.Calls
import AdversarialCognition.Backend.Records
import AdversarialCognition.Backend.Recall
import AdversarialCognition.Backend.Nonces
import AdversarialCognition.Backend.Idempotency
import AdversarialCognition.Backend.Staleness
import AdversarialCognition.Backend.Authority
import AdversarialCognition.Backend.Noninterference
import AdversarialCognition.Backend.Admission
import AdversarialCognition.Backend.Forgetting
import AdversarialCognition.Backend.TimeTravel
import AdversarialCognition.Backend.Ingestion
import AdversarialCognition.Backend.Receipts
import AdversarialCognition.Backend.Seed
import AdversarialCognition.Authenticated.Identity
import AdversarialCognition.Authenticated.Backend
import AdversarialCognition.Cases
import AdversarialCognition.Protocol.Core
import AdversarialCognition.Protocol.Attempts
import AdversarialCognition.Protocol.Scoring
import AdversarialCognition.Protocol.Credit
import AdversarialCognition.Protocol.Retries
import AdversarialCognition.Protocol.Rows
import AdversarialCognition.Harness.Tools
import AdversarialCognition.Harness.Loop
import AdversarialCognition.Harness.Driver
import AdversarialCognition.Harness.Failures
import AdversarialCognition.Harness.Voiding
import AdversarialCognition.Protocol.Probe
import AdversarialCognition.Report.Core
import AdversarialCognition.Report.Gates
import AdversarialCognition.Report.Adapters
import AdversarialCognition.Report.Coverage
import AdversarialCognition.Report.Manifest
import AdversarialCognition.Harness.Prompts
import AdversarialCognition.Lib.OneLine
import AdversarialCognition.Report.Build
import AdversarialCognition.Report.Bounded
import AdversarialCognition.Report.Survival
import AdversarialCognition.Report.Tracks
import AdversarialCognition.Report.Attestation
import AdversarialCognition.Lib.IsoDate
import AdversarialCognition.AgentBackends.Credentials
import AdversarialCognition.AgentBackends.Visible
import AdversarialCognition.Backend.Atomicity
import AdversarialCognition.AgentBackends.MemFS
import AdversarialCognition.Harness.Course
import AdversarialCognition.Harness.Malformed
import AdversarialCognition.Harness.Discipline
import AdversarialCognition.Harness.Budget
import AdversarialCognition.Harness.Truncation
import AdversarialCognition.AgentBackends.Counter
import AdversarialCognition.Lib.Rdf
import AdversarialCognition.Adapters.AkkaFluree
import AdversarialCognition.Lib.Ecma
import AdversarialCognition.Adapters.Letta
import AdversarialCognition.Lib.Scalars
import AdversarialCognition.Harness.Wrapped
import AdversarialCognition.Lib.TextFile
import AdversarialCognition.Book.SanitizeLinks
import AdversarialCognition.Book.Digest
import AdversarialCognition.Book.Catalog
import AdversarialCognition.Book.Provenance
import AdversarialCognition.Book.Capability
import AdversarialCognition.Book.Authority
import AdversarialCognition.Book.Evidence
import AdversarialCognition.Book.Comparison
import AdversarialCognition.Book.Verdict
import AdversarialCognition.Protocol.RunV2
import AdversarialCognition.Report.Wire
import AdversarialCognition.Report.AgentWire
import AdversarialCognition.Lib.Journal
import AdversarialCognition.Lib.Surrogates
import AdversarialCognition.Lib.Compact
import AdversarialCognition.Lib.FirstSeen
import AdversarialCognition.Lib.Tags
import AdversarialCognition.Lib.Leaves
import AdversarialCognition.Adapters.Cognee
import AdversarialCognition.Lib.Extension
import AdversarialCognition.Lib.Unescaped
import AdversarialCognition.Lib.Forall2
import AdversarialCognition.Corpus.LoadCases
import AdversarialCognition.Lib.Numbered
import AdversarialCognition.Corpus.PublicLoaders
import AdversarialCognition.Book.Drivers
