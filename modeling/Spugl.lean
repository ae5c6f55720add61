import Spugl.FixedSizes
import Spugl.OrderedCycle
import Spugl.Runs
import Spugl.CacheLine
import Spugl.RenderTasks
import Spugl.LineRewrites
import Spugl.ChunkSplitting
import Spugl.RenderSystem
import Spugl.ChunkOwnership
import Spugl.TileHistory
import Spugl.TriangleRing
import Spugl.HilbertWalk
import Spugl.TileWalk
import Spugl.EdgeFunction
import Spugl.TriangleSetup
import Spugl.PixelCoverage
import Spugl.Rasterisation
import Spugl.SharedEdges
import Spugl.CommandFraming
import Spugl.CommandQueue
import Spugl.QueueInvariant
import Spugl.QueueServing
import Spugl.QueueHistory
import Spugl.CommandEncoding
import Spugl.DrawingState
import Spugl.SharedVariables
import Spugl.CommandFootprint
import Spugl.QueueIsolation
import Spugl.WindowRefill
import Spugl.QueueDecoding
import Spugl.Retries
import Spugl.CommandRuns
import Spugl.ShaderCache
import Spugl.SyncTest
import Spugl.ChunkStores
import Spugl.SectionStores
import Spugl.RenderPipeline
import Spugl.SyncDrained
import Spugl.SoloRuns
import Spugl.SoloDrain
import Spugl.DrawingRun
import Spugl.RenderableSwitch
import Spugl.VertexLabels
import Spugl.PrimitiveAssembly
import Spugl.Allocations
import Spugl.FlushHandshake
import Spugl.HandshakeInvariant
import Spugl.FlushReplies
import Spugl.BufferLedger
import Spugl.LedgerInvariant
import Spugl.BufferChanges
import Spugl.BufferUses
import Spugl.BufferLifetimes
import Spugl.ClientSockets
import Spugl.TileVisits
import Spugl.HilbertLeaves
import Spugl.TileSearch
import Spugl.SetupRanges
import Spugl.SpuVectors
import Spugl.LaneLines
import Spugl.MergedLines
import Spugl.ChunkChoice
import Spugl.WriteBack
import Spugl.BlitLists
import Spugl.TileBuffers
import Spugl.FrameRows
import Spugl.PointerNames
import Spugl.RingNames
import Spugl.TilePainting
import Spugl.FramePainting
import Spugl.PixelShaders
import Spugl.FinalPicture
import Spugl.RenderableTable
import Spugl.ScreenFrames
import Spugl.SharedFrames
import Spugl.HandshakeRegions
import Spugl.SharedBuffers
import Spugl.CommandPainting
