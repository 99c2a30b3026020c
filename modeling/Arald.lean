import Arald.Foundations.OrderedMap
import Arald.Foundations.Runs
import Arald.Foundations.Newest
import Arald.Foundations.FixedWindows
import Arald.Foundations.Chunks
import Arald.Foundations.Numerals
import Arald.Store.BoundedFifoMap
import Arald.Foundations.JsValue
import Arald.Mesh.Packet
import Arald.Mesh.Trust
import Arald.Mesh.TrustRuns
import Arald.Mesh.RateLimiter
import Arald.Mesh.RelayPolicy
import Arald.Mesh.SeenCache
import Arald.Mesh.RoutingTable
import Arald.Mesh.PendingDeliveryQueue
import Arald.Mesh.Node
import Arald.Mesh.Frames
import Arald.Mesh.DirectRoutes
import Arald.Mesh.RouteProvenance
import Arald.Mesh.Network
import Arald.Mesh.DeliveryDeadlines
import Arald.Content.Metadata
import Arald.Content.Store
import Arald.Ingest.Box
import Arald.Ingest.Frames
import Arald.Ingest.RelayReplay
import Arald.Ingest.OperatorCommands
import Arald.Ingest.ElevatedDrops
import Arald.Ingest.Rejections
import Arald.Content.Assembler
import Arald.Content.PendingRequest
import Arald.Content.Scheduling
import Arald.Content.Node
import Arald.Content.Effects
import Arald.Content.Integrity
import Arald.Content.Bookkeeping
import Arald.Content.RangeCoverage
import Arald.Content.FetchNetwork
import Arald.Content.MultiSource
import Arald.Ingest.DeliveryQueue
import Arald.Ingest.ExternalDeliveries
import Arald.Ingest.DeliveryLoop
import Arald.Ingest.AppendReplay
import Arald.Ingest.ExpiredAppends
import Arald.Messaging.Groups
import Arald.Transports.Links
import Arald.Mesh.RelayPresence
import Arald.Mesh.Reports
import Arald.Transports.BridgeClient
import Arald.Transports.Fragments
import Arald.Transports.LoraLink
import Arald.Mesh.Emissions
import Arald.Mesh.Custody
import Arald.Mesh.FloodRuns
import Arald.Mesh.FloodSafety
import Arald.Foundations.Flooding
import Arald.Mesh.FloodReach
import Arald.Content.FloodResistance
import Arald.Ingest.ContentPaths
import Arald.Web.Addresses
import Arald.Web.AuthThrottle
import Arald.Web.LockSafety
import Arald.Ingest.Beacons
import Arald.Ingest.Originators
import Arald.Ingest.CommandPoller
import Arald.Phone.DropQueue
import Arald.Web.DropRequests
import Arald.Web.Http
import Arald.Discovery.Service
import Arald.Foundations.Since
import Arald.Discovery.Verification
import Arald.Portable.Config
import Arald.Foundations.Eviction
import Arald.Phone.RelayQueue
import Arald.Mesh.RouteAdverts
import Arald.Ingest.ReadBack
import Arald.Content.Reassembly
import Arald.Foundations.Framing
import Arald.Transports.BridgeFrames
import Arald.Transports.Reordering
import Arald.Transports.Refusals
import Arald.Ingest.DeliveryBounds
import Arald.Transports.BridgeFirmware
import Arald.Ingest.Arrivals
import Arald.Ingest.Sightings
import Arald.Mesh.RateLimits
import Arald.Phone.DropReports
import Arald.Transports.GattFragments
import Arald.Transports.GattLink
import Arald.Phone.RoleManager
import Arald.Web.PublicAddresses
import Arald.Web.AddressSpellings
import Arald.Foundations.ReedSolomon
import Arald.Foundations.Logarithms
import Arald.Qr.GaloisField
import Arald.Foundations.BitLists
import Arald.Qr.Codewords
import Arald.Qr.CodewordsRead
import Arald.Foundations.Grids
import Arald.Qr.Matrix
import Arald.Qr.Decoder
import Arald.Qr.ReadBack
import Arald.Qr.RoundTrip
import Arald.Foundations.JsObjects
import Arald.Phone.StoredDrops
import Arald.Phone.EnqueueAnswers
import Arald.Phone.ClaimExpiry
import Arald.Foundations.Utf8Decoding
import Arald.Hub.ContainerLogs
import Arald.Foundations.Lines
import Arald.Email.QuotedPrintable
import Arald.Email.Smtp
import Arald.Maps.GeoTiles
import Arald.Foundations.Outcomes
import Arald.Content.Buffers
import Arald.Maps.Png
import Arald.Maps.PngRoundTrip
import Arald.Foundations.Sha256
import Arald.Foundations.JsBits
import Arald.Phone.Sha256
import Arald.Foundations.Deltas
import Arald.Foundations.JsonText
import Arald.Maps.TerrainGrids
import Arald.Maps.TerrainTiles
import Arald.Maps.TerrainPacks
import Arald.Foundations.SlidingCap
import Arald.Foundations.Tables
import Arald.Store.EvictionLaw
import Arald.Maps.TileService
import Arald.Transports.SendQueue
import Arald.Foundations.PlaneSegments
import Arald.Scenario.ObstacleAreas
import Arald.Foundations.UnionFind
import Arald.Foundations.BreadthFirst
import Arald.Scenario.Resilience
import Arald.Scenario.FailureReports
import Arald.Scenario.ResidualGraph
import Arald.Scenario.Arrivals
import Arald.Scenario.Reachability
import Arald.Scenario.Redundancy
import Arald.Scenario.Damage
import Arald.Scenario.ScoreBounds
import Arald.Scenario.Damage
import Arald.Foundations.TokenBucket
import Arald.Scenario.Simulation
import Arald.Scenario.SimulationRuns
import Arald.Maps.TileServiceRuns
import Arald.Maps.TileServiceSlots
import Arald.Maps.WorldTiles
import Arald.Maps.WorldTilesRuns
import Arald.Maps.WorldTilesEnsured
import Arald.Foundations.LeastCosts
import Arald.Scenario.CustodyRoutes
import Arald.Foundations.Scanning
import Arald.Feeds.RssFeed
import Arald.Feeds.CdataScan
import Arald.Feeds.Documents
import Arald.Feeds.Spellings
import Arald.Feeds.FeedDocuments
import Arald.Feeds.CdataOpacity
import Arald.Feeds.FeedRoundTrip
