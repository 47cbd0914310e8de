import Yarr.Core.Attempts
import Yarr.Core.Batches
import Yarr.Core.BitField
import Yarr.Core.Bits
import Yarr.Core.Gather
import Yarr.Core.Invariant
import Yarr.Core.Lockstep
import Yarr.Core.Maps
import Yarr.Core.Run
import Yarr.Core.Returns
import Yarr.Core.Searches
import Yarr.Core.EqualBins
import Yarr.Core.FloatRounding
import Yarr.Core.Transport
import Yarr.Core.Watch
import Yarr.Data.EventFile
import Yarr.Pixel.Containers
import Yarr.Pixel.Fragments
import Yarr.Pixel.Readings
import Yarr.Fei4.Fei4DataProcessor
import Yarr.Felix.FelixTools
import Yarr.Felix.FelixTxCore
import Yarr.Felix.CommandFifo
import Yarr.Felix.FelixController
import Yarr.Felix.LinkEnabling
import Yarr.Scan.Loops
import Yarr.Histo.HistogramBase
import Yarr.Histo.Histo1d
import Yarr.Histo.Histo2d
import Yarr.Histo.Histo3d
import Yarr.Histo.Rebuild
import Yarr.Histo.RawDataHistogram
import Yarr.Itkpixv2Emu.CommandInterpreter
import Yarr.Rd53.GlobalCfg
import Yarr.Rd53.ChipRegisters
import Yarr.Rd53.Itkpixv2
import Yarr.Itkpixv2Emu.CommandExe
import Yarr.Itkpixv2Emu.CommandStream
import Yarr.Itkpixv2Emu.CommandTransport
import Yarr.Itkpixv2Emu.HeadLaws
import Yarr.Itkpixv2Emu.ExecuteLoop
import Yarr.Itkpixv2Emu.MaskWrites
import Yarr.Rd53.RegisterMap
import Yarr.Rd53.ChipCopy
import Yarr.Itkpixv2Emu.PixelDownload
import Yarr.Itkpixv2Emu.Timeliness
import Yarr.Pixel.Cursor
import Yarr.Pixel.TreeCode
import Yarr.Pixel.Decoder
import Yarr.Pixel.CursorLaws
import Yarr.Pixel.Itkpixv2DataProcessor
import Yarr.Pixel.Rd53bDataProcessor
import Yarr.Pixel.ReaderMap
import Yarr.Pixel.BitPosition
import Yarr.Pixel.BitReader
import Yarr.Pixel.Transparency
import Yarr.Pixel.BitPositionRuns
import Yarr.Rd53.Rd53aDataProcessor
import Yarr.Pixel.DecoderTiming
import Yarr.Pixel.HeaderAccounting
import Yarr.Pixel.Rd53bReading
import Yarr.Rd53.Rd53a
import Yarr.Rd53aEmu.ExecuteLoop
import Yarr.Rd53aEmu.CommandPieces
import Yarr.Rd53aEmu.CommandTransport
import Yarr.Rd53aEmu.EmulatorThread
import Yarr.Scan.Bookkeeper
import Yarr.Scan.StdDataLoop
import Yarr.Scan.DataRouting
import Yarr.Rd53aEmu.DataTaking
import Yarr.Rd53aEmu.WritePool
import Yarr.Rd53aEmu.PixelDownload
import Yarr.Rd53aEmu.TriggerTags
import Yarr.Rd53aEmu.WriteOrder
import Yarr.Scan.Histograms
import Yarr.Scan.StdHistogrammer
import Yarr.Scan.OccupancyAnalysis
import Yarr.Scan.OccupancyLaws
import Yarr.Scan.Completeness
import Yarr.Scan.LoopEngine
import Yarr.Scan.LoopNests
import Yarr.Scan.LoopExecution
import Yarr.Scan.OccPixelThresholdTune
import Yarr.Scan.ScurveFitter
import Yarr.Scan.ScurveGrouping
import Yarr.Scan.TriggerThrottleAnalysis
import Yarr.Star.StarChipPacket
import Yarr.Star.StarDataProcessor
import Yarr.Star.StarCfg
import Yarr.Star.ChipIDs
import Yarr.Star.SubRegisters
import Yarr.Star.StripFields
import Yarr.Star.StarParamFeedback
import Yarr.Star.StarChannelFeedback
import Yarr.Star.ChannelFeedbackLaw
import Yarr.Star.ChannelFeedbackRuns
import Yarr.Star.PacketFormat
import Yarr.Star.ClusterFinder
import Yarr.Star.ClusterCover
import Yarr.Star.ConfigSlots
import Yarr.Star.LCB
import Yarr.Star.ParserLaws
import Yarr.Star.PacketBounds
import Yarr.Star.PhysicsDecoding
import Yarr.Star.StarPackets
import Yarr.Star.PhysicsRoundTrip
import Yarr.Star.StarRRvParamAnalysis
import Yarr.Star.RRvParamMaps
import Yarr.Star.RegisterPackets
import Yarr.Star.StarFelixTriggerLoop
import Yarr.Star.StarMaskLoop
import Yarr.Star.StarSeqGenerator
import Yarr.Star.StarTriggerThrottleAnalysis
import Yarr.Star.StarTrimDacAnalysis
import Yarr.Star.StrobeDelayPulse
import Yarr.Star.StrobeDelayParts
import Yarr.Star.ThrottleOutputs
import Yarr.Star.TrickleSequence
import Yarr.Star.TrickleBudget
import Yarr.Star.TrickleMemory
import Yarr.Star.TrimsPerChip
import Yarr.StarEmu.StarChipsetEmu
import Yarr.StarEmu.StripRegisters
import Yarr.StarEmu.AnalogueModelGenerator
import Yarr.StarEmu.Broadcasts
import Yarr.StarEmu.HighPriority
import Yarr.StarEmu.HighPriorityService
import Yarr.StarEmu.MaskCoverage
import Yarr.Core.Fields
import Yarr.Fei4.Fei4PixelCfg
import Yarr.Itkpixv2Emu.RegisterReadBack
import Yarr.Rd53.PixelCfg
import Yarr.Core.Periods
import Yarr.Fei4.Fei4
import Yarr.Fei4Emu.Fei4Emu
import Yarr.Fei4Emu.PixelDownload
import Yarr.Fei4.HitsOnMatrix
import Yarr.Fei4Emu.HitRoundTrip
import Yarr.Rd53.CoreColumns
import Yarr.Rd53.Rd53aCoreColLoop
import Yarr.Rd53.Itkpixv2CoreColLoop
import Yarr.Rd53aEmu.HitWords
import Yarr.Rd53aEmu.HitRoundTrip
import Yarr.Fei4.Fei4TriggerLoop
import Yarr.Felix.RegisterFields
import Yarr.Histo.Binning
import Yarr.Histo.DerivedState
import Yarr.Histo.Profile
import Yarr.Fei4.Fei4PixelFeedback
import Yarr.Core.Rounds
import Yarr.Scan.GlobalFeedback
import Yarr.Fei4.Fei4GlobalFeedback
import Yarr.Rd53.Itkpixv2GlobalFeedback
import Yarr.Scan.GlobalTuning
import Yarr.Scan.TriggerAccounting
import Yarr.Rd53.TriggerTrain
import Yarr.Rd53.InjectionTriggers
import Yarr.Rd53.TriggerWords
import Yarr.Core.Join
import Yarr.Scan.ScopeAnalyses
import Yarr.Scan.ScopeSums
import Yarr.Scan.ScopeAttribution
import Yarr.Rd53.Rd53a2TriggerLoop
import Yarr.Rd53.BurstTrains
import Yarr.Rd53.DoubleInjection
import Yarr.Rd53.InjectionPairs
import Yarr.Star.RRvParamOutputs
import Yarr.Bdaq.BdaqRxCore
import Yarr.Bdaq.BdaqTxCore
import Yarr.Bdaq.FrameLaws
import Yarr.Bdaq.Reassembly
import Yarr.Core.Delimited
import Yarr.Felix.FelixRxThread
import Yarr.Felix.OptoUtils
import Yarr.Felix.LpGBTAccess
import Yarr.Itsdaq.ItsdaqHandler
import Yarr.Itsdaq.QueuedData
import Yarr.Itsdaq.Streams
import Yarr.Rd53.PixelFeedback
import Yarr.Rd53.PixelTuning
import Yarr.Rd53.Rd53aGlobalFeedback
import Yarr.Rd53.TunedAlone
import Yarr.Scan.PixelMasks
import Yarr.Scan.NoiseAnalysis
import Yarr.Pixel.HitMapReading
