import Tntsat.ForStd.Machine
import Tntsat.ForStd.Memory
import Tntsat.ForStd.Ring
import Tntsat.ForStd.Queue
import Tntsat.ForStd.CInt
import Tntsat.ForStd.Span
import Tntsat.ForStd.ByteFile
import Tntsat.ForStd.LittleEndian
import Tntsat.Native.FifoKw
import Tntsat.Spec.FifoKwCorrect
import Tntsat.Native.PvrFifo
import Tntsat.Spec.PvrFifoCorrect
import Tntsat.Spec.PvrEventMapCorrect
import Tntsat.Native.PvrFileTable
import Tntsat.Spec.PvrFileTableCorrect
import Tntsat.Native.MtosMsg
import Tntsat.Spec.MtosMsgCorrect
import Tntsat.Spec.MtosMsgPayloadCorrect
import Tntsat.Native.AdecBuf
import Tntsat.Spec.AdecBufCorrect
import Tntsat.Native.DemuxSwFilter
import Tntsat.Native.DemuxSw
import Tntsat.Native.DemuxSwChannel
import Tntsat.Spec.DemuxSwAssembler
import Tntsat.Spec.DemuxSwSectionsCorrect
import Tntsat.Spec.DemuxSwResetCorrect
import Tntsat.Spec.DemuxSwPosition
import Tntsat.Spec.DemuxSwQueueCorrect
import Tntsat.Native.PvrIdxCache
import Tntsat.Spec.PvrIdxCacheCorrect
import Tntsat.Native.PvrIndex
import Tntsat.Spec.PvrIndexStep
import Tntsat.Spec.PvrIndexCorrect
import Tntsat.Native.PvrRecAttr
import Tntsat.Native.PvrIndexFile
import Tntsat.Native.PvrRecWrite
import Tntsat.Spec.PvrRecDivisorCorrect
import Tntsat.Spec.PvrRecLoopCorrect
import Tntsat.Spec.PvrIndexFileCorrect
import Tntsat.Native.MmzBlock
import Tntsat.Native.PvrIdxRing
import Tntsat.Spec.MmzBlockCorrect
import Tntsat.Spec.PvrIdxRingCorrect
import Tntsat.Spec.PvrIdxTimeCorrect
import Tntsat.ForStd.Slots
import Tntsat.Spec.PvrShmCorrect
import Tntsat.Native.MtosTimer
import Tntsat.Spec.MtosTimerCorrect
import Tntsat.Native.AmpShm
import Tntsat.Spec.AmpShmCorrect
import Tntsat.Native.ScteSubtData
import Tntsat.Spec.ScteSubtDataCorrect
import Tntsat.ForStd.GoodBlocks
import Tntsat.Native.NandRaw
import Tntsat.Spec.NandWalk
import Tntsat.Spec.NandFlatCorrect
import Tntsat.Spec.NandEraseCorrect
import Tntsat.Native.PvrRecIndex
import Tntsat.Spec.PvrRecIndexCorrect
import Tntsat.Native.FrameIndex
import Tntsat.Spec.FrameIndexStep
import Tntsat.Spec.FrameIndexPts
import Tntsat.Spec.FrameIndexRanges
import Tntsat.Native.SubtData
import Tntsat.Spec.SubtDataCorrect
import Tntsat.Native.Cc608Xds
import Tntsat.Native.LxcIpc
import Tntsat.Spec.Cc608XdsCorrect
import Tntsat.Spec.LxcIpcCounts
import Tntsat.Spec.LxcIpcConnectCorrect
import Tntsat.Spec.LxcIpcBuffersCorrect
import Tntsat.Spec.LxcIpcCallsCorrect
import Tntsat.Native.Cc708
import Tntsat.Spec.Cc708Items
import Tntsat.Spec.Cc708BlockCorrect
import Tntsat.Spec.Cc708PacketCorrect
import Tntsat.Spec.Cc708ResetCorrect
import Tntsat.Spec.Cc708Stream
import Tntsat.Spec.Cc708DelayCorrect
import Tntsat.ForStd.Stores
import Tntsat.Native.SubtPixels
import Tntsat.Native.SubtParse
import Tntsat.Spec.SubtSearch
import Tntsat.Spec.SubtMemory
import Tntsat.Spec.SubtParseCorrect
import Tntsat.Native.PvrIndexPos
import Tntsat.Native.PvrIndexCut
import Tntsat.Spec.PvrCutCorrect
import Tntsat.Spec.PvrIndexPosCorrect
import Tntsat.Spec.PvrReadposCorrect
import Tntsat.Native.PvrIndexSeek
import Tntsat.Spec.PvrSeekCorrect
import Tntsat.Native.SmartJobs
import Tntsat.Spec.SmartJobsCorrect
import Tntsat.Native.SmartGenJobs
import Tntsat.Spec.SmartGenJobsCorrect
import Tntsat.Native.DownloadFile
import Tntsat.Spec.DownloadFileCorrect
import Tntsat.Native.MultiQueue
import Tntsat.Native.SmartSchedule
import Tntsat.Spec.SmartScheduleInv
import Tntsat.Spec.SmartScheduleStep
import Tntsat.Spec.SmartScheduleCorrect
import Tntsat.Native.PvrFrmNum
import Tntsat.Spec.PvrFrmNumCorrect
import Tntsat.Native.SmartSeek
import Tntsat.Native.PvrFrameStat
import Tntsat.Spec.PvrFrameStatCorrect
import Tntsat.Native.FlashOpen
import Tntsat.Spec.FlashOpenCorrect
import Tntsat.ForStd.ExpGolomb
import Tntsat.Native.SliceHeader
import Tntsat.Spec.SliceHeaderCorrect
import Tntsat.Native.RecHeader
import Tntsat.Spec.RecHeaderCorrect
import Tntsat.Native.PvrGop
import Tntsat.Spec.PvrGopCorrect
import Tntsat.Native.MmzZone
import Tntsat.Spec.MmzZoneCorrect
import Tntsat.Native.PvrFrameFind
import Tntsat.Native.FlashReadonly
import Tntsat.Spec.NandLimit
import Tntsat.Spec.PvrFrameFindCorrect
import Tntsat.Spec.FlashReadonlyCorrect
import Tntsat.ForStd.CText
import Tntsat.Native.CmdlineParts
import Tntsat.Spec.CmdlineHeap
import Tntsat.Spec.CmdlineLists
import Tntsat.Spec.CmdlineCorrect
import Tntsat.ForStd.ForwardSearch
import Tntsat.Spec.SubtSegmentsCorrect
import Tntsat.Spec.SubtObjectsCorrect
import Tntsat.ForStd.Raster
import Tntsat.Native.SubtShowBuf
import Tntsat.Spec.SubtLayoutCorrect
import Tntsat.Spec.SubtShowBufCorrect
import Tntsat.Spec.SubtPaletteCorrect
import Tntsat.Native.TtxData
import Tntsat.Spec.TtxDataCorrect
import Tntsat.Spec.SubtRegionBufCorrect
import Tntsat.Native.ScteSubtParse
import Tntsat.ForStd.BitString
import Tntsat.Spec.ScteSubtBits
import Tntsat.Spec.ScteSubtPicture
import Tntsat.Spec.ScteSubtLayout
import Tntsat.Spec.ScteSubtBoundsCorrect
import Tntsat.Spec.ScteSubtMessageCorrect
import Tntsat.Native.DemuxScd
import Tntsat.Spec.DemuxScdCorrect
import Tntsat.Native.PvrBitstream
import Tntsat.Spec.PvrBitstreamCorrect
import Tntsat.Native.CcFifo
import Tntsat.Spec.CcFifoCorrect
import Tntsat.Native.CcParse
import Tntsat.Spec.CcParseRepeatCorrect
import Tntsat.Spec.CcParseChannelsCorrect
import Tntsat.ForStd.Gives
import Tntsat.Spec.CcParseBoundsCorrect
import Tntsat.Native.Cc608Dec
import Tntsat.Spec.Cc608DecCorrect
import Tntsat.Native.TsSequence
import Tntsat.Spec.TsStartCode
import Tntsat.Spec.TsPicturesCorrect
import Tntsat.ForStd.CheckedLoop
import Tntsat.Native.TsKeyFrame
import Tntsat.Spec.TsCheckReads
import Tntsat.Native.Cc708Checked
import Tntsat.Spec.TsKeyFrameCorrect
import Tntsat.Spec.Cc708CmdBounds
import Tntsat.Spec.Cc708PacketBounds
import Tntsat.Spec.Cc708AccessCorrect
import Tntsat.Native.CircBuf
import Tntsat.Spec.CircBufCorrect
import Tntsat.Native.MtosFifo
import Tntsat.Spec.MtosFifoCorrect
import Tntsat.Native.WmAlloc
import Tntsat.Spec.WmAllocCorrect
import Tntsat.Native.ProtocolT1
import Tntsat.Spec.ProtocolT1Correct
import Tntsat.Spec.MtosMsgRefsCorrect
import Tntsat.ForStd.XorLinear
import Tntsat.Spec.SectionCrcCorrect
