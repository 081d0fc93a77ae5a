import Pccs.Appraisal
import Pccs.BigEndian
import Pccs.BucketSort
import Pccs.Cache
import Pccs.CacheRules
import Pccs.CanonicalPaths
import Pccs.CertRoundTrip
import Pccs.CertWriter
import Pccs.Checked
import Pccs.CheckedCert
import Pccs.CheckedPools
import Pccs.Coherence
import Pccs.CoherentWriters
import Pccs.Collateral
import Pccs.CollateralAtomicity
import Pccs.Credentials
import Pccs.Der
import Pccs.Encoding
import Pccs.FailedFills
import Pccs.Fallible
import Pccs.Fifo
import Pccs.FifoAge
import Pccs.FifoIndex
import Pccs.FifoPut
import Pccs.FifoRuns
import Pccs.Gates
import Pccs.ImportCoherence
import Pccs.ImportJoins
import Pccs.ImportRows
import Pccs.Insertion
import Pccs.IntelImport
import Pccs.JoinSet
import Pccs.Json
import Pccs.KeyGate
import Pccs.KeySpace
import Pccs.KeyValue
import Pccs.Keys
import Pccs.Lookups
import Pccs.Manifests
import Pccs.Ocsp
import Pccs.OcspRuns
import Pccs.OcspShape
import Pccs.OcspWriter
import Pccs.Paths
import Pccs.PckCert
import Pccs.PercentDecoders
import Pccs.PermitRuns
import Pccs.PlatformRuns
import Pccs.PoolSweep
import Pccs.PoolValidity
import Pccs.Process
import Pccs.Provenance
import Pccs.Query
import Pccs.Queue
import Pccs.ReadThrough
import Pccs.Reads
import Pccs.Recordings
import Pccs.Records
import Pccs.Refetch
import Pccs.RefetchRuns
import Pccs.Refresh
import Pccs.Registration
import Pccs.Retry
import Pccs.Runs
import Pccs.Seed
import Pccs.Selection
import Pccs.SelectionOrder
import Pccs.SingleFlight
import Pccs.SingleFlightRuns
import Pccs.Splitting
import Pccs.Staging
import Pccs.Store
import Pccs.Tcb
import Pccs.TcbEncoding
import Pccs.Text
import Pccs.TlvCodec
import Pccs.Urls
import Pccs.Validate
import Pccs.Access
