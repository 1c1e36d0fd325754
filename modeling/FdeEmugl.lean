import FdeEmugl.Base.RingBufferPeek
import FdeEmugl.Base.BufferQueueSnapshot
import FdeEmugl.Base.MessageChannelWaiters
import FdeEmugl.Base.WorkerThread
import FdeEmugl.Base.PackedNumbers
import FdeEmugl.Base.EntityManager
import FdeEmugl.Render.SyncThread
import FdeEmugl.Render.ExactlyOnce
import FdeEmugl.Render.ReadBufferMemory
import FdeEmugl.Render.ReadbackWorker
import FdeEmugl.Render.RenderChannel
import FdeEmugl.Render.ChecksumCalculator
import FdeEmugl.Render.IOStream
import FdeEmugl.Render.RingStream
import FdeEmugl.Render.DecoderArguments
import FdeEmugl.Render.FenceSyncLifetime
import FdeEmugl.Snapshot.PageFill
import FdeEmugl.Snapshot.SaveChain
import FdeEmugl.Snapshot.FindPage
import FdeEmugl.Snapshot.GapPersistence
import FdeEmugl.Snapshot.EagerLoad
import FdeEmugl.FrameBuffer.Ownership
import FdeEmugl.FrameBuffer.NoLeak
import FdeEmugl.FrameBuffer.Balance
import FdeEmugl.FrameBuffer.Creation
import FdeEmugl.AddressSpace.Allocator
import FdeEmugl.AddressSpace.GraphicsConsumer
import FdeEmugl.AddressSpace.MemoryMappings
import FdeEmugl.AddressSpace.SharedSlots
import FdeEmugl.Translator.ShareGroups
import FdeEmugl.Render.RenderServer
import FdeEmugl.Translator.ObjectNameSpace
import FdeEmugl.Library.Files
import FdeEmugl.Pipe.AsyncFlow
import FdeEmugl.Pipe.MessageFlow
import FdeEmugl.Pipe.HostPipeRegistry
import FdeEmugl.Pipe.AsyncHandles
import FdeEmugl.Pipe.DeferredOperations
import FdeEmugl.Media.SnapshotReplay
import FdeEmugl.Qemud.RoundTrip
import FdeEmugl.Qemud.ClientBooks
import FdeEmugl.Snapshot.Hierarchy
import FdeEmugl.AddressSpace.SubAllocatorSnapshot
import FdeEmugl.AddressSpace.SharedSlotsSnapshot
import FdeEmugl.AddressSpace.HostMemoryContext
import FdeEmugl.Library.Ledger
import FdeEmugl.Pipe.DmaMap
import FdeEmugl.AddressSpace.GraphicsBlocks
import FdeEmugl.Library.BitFields
import FdeEmugl.Texture.EtcDecode
import FdeEmugl.Texture.EacDecode
import FdeEmugl.Library.Selection
import FdeEmugl.Texture.EtcEncode
import FdeEmugl.Texture.EtcImage
import FdeEmugl.Translator.GLESbuffer
import FdeEmugl.Render.FbConfig
import FdeEmugl.Texture.PaletteTexture
import FdeEmugl.Base.IOVector
import FdeEmugl.Base.PathUtils
import FdeEmugl.Pipe.ServiceStreams
import FdeEmugl.Pipe.Connector
import FdeEmugl.Pipe.AdbRelay
import FdeEmugl.Qemud.ClientSnapshot
import FdeEmugl.Translator.RenderbufferReferences
import FdeEmugl.Translator.FramebufferSnapshot
import FdeEmugl.Translator.VertexConversion
import FdeEmugl.Base.LayoutResolver
import FdeEmugl.Base.RingBufferGeometry
import FdeEmugl.AddressSpace.BestFit
import FdeEmugl.Media.StartCodes
import FdeEmugl.Base.TarHeader
import FdeEmugl.Base.IniValues
