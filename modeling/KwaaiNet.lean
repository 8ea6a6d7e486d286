import KwaaiNet.Routing.PinnedPath
import KwaaiNet.Routing.Rebalancer
import KwaaiNet.Routing.RebalanceRuns
import KwaaiNet.Routing.PathOptimality
import KwaaiNet.Routing.GapChoice
import KwaaiNet.Inference.Coherence
import KwaaiNet.Inference.ForwardWalk
import KwaaiNet.Inference.Attention
import KwaaiNet.Inference.FailedPass
import KwaaiNet.Inference.BreakerHistory
import KwaaiNet.Inference.MuxAnswers
import KwaaiNet.Inference.MuxLeaks
import KwaaiNet.Inference.MuxFraming
import KwaaiNet.Inference.HttpProxy
import KwaaiNet.Trust.Transport
import KwaaiNet.Trust.TrustScore
import KwaaiNet.Summit.Login
import KwaaiNet.Summit.Registration
import KwaaiNet.Daemon.Registration
import KwaaiNet.Dht.Client
import KwaaiNet.Dht.History
import KwaaiNet.Storage.Concurrency
import KwaaiNet.Storage.Rpc
import KwaaiNet.Storage.Isolation
import KwaaiNet.Storage.Admission
import KwaaiNet.Storage.Api
import KwaaiNet.Download.SafeJoin
import KwaaiNet.Graph.Reopening
import KwaaiNet.Graph.Adjacency
import KwaaiNet.Graph.Merging
import KwaaiNet.Rag.Sync
import KwaaiNet.Dht.Wrapper
import KwaaiNet.Trust.DidKeys
import KwaaiNet.Node.Addresses
import KwaaiNet.Node.Versions
import KwaaiNet.Node.Announcement
import KwaaiNet.MapServer.Coverage
import KwaaiNet.Node.ModelChoice
import KwaaiNet.Download.Selection
import KwaaiNet.Routing.Circuits
import KwaaiNet.Routing.Discovery
import KwaaiNet.Foundation.Fallible
import KwaaiNet.Training.Rounds
import KwaaiNet.Training.Quantization
import KwaaiNet.Rag.Extraction
import KwaaiNet.Rag.ChunkOrder
import KwaaiNet.Foundation.Calendar
import KwaaiNet.Trust.CredentialStore
import KwaaiNet.Trust.CredentialDisplay
import KwaaiNet.Rag.Ingest
import KwaaiNet.Rag.MetaConcurrency
import KwaaiNet.Rag.QueryCache
