import DanubeBsp.TpeFifo
import DanubeBsp.Runs
import DanubeBsp.TpeFifoSteps
import DanubeBsp.TpeFifoQueue
import DanubeBsp.BufferPool
import DanubeBsp.BufferPoolAlloc
import DanubeBsp.BufferPoolFree
import DanubeBsp.BufferPoolConserve
import DanubeBsp.DmaTx
import DanubeBsp.DmaTxRing
import DanubeBsp.DmaRx
import DanubeBsp.DmaRxRing
import DanubeBsp.VoiceFifo
import DanubeBsp.VoiceFifoRing
import DanubeBsp.VoiceFifoQueue
import DanubeBsp.DmaTasklet
import DanubeBsp.Gptu
import DanubeBsp.GptuRequest
import DanubeBsp.GptuRuns
import DanubeBsp.MpsCmd
import DanubeBsp.DataMsgQueue
import DanubeBsp.Backlog
import DanubeBsp.BacklogOrder
import DanubeBsp.VoiceLevel
import DanubeBsp.MeiFirmware
import DanubeBsp.MeiFirmwarePages
import DanubeBsp.MeiCmv
import DanubeBsp.MeiExclusive
import DanubeBsp.MibDays
import DanubeBsp.MibPoll
import DanubeBsp.BlockStream
import DanubeBsp.Sha1
import DanubeBsp.HashEngine
import DanubeBsp.Md5
import DanubeBsp.Eth1Tx
import DanubeBsp.Eth1TxRing
import DanubeBsp.CipherEngine
import DanubeBsp.Deu
import DanubeBsp.DeuIsolation
import DanubeBsp.Eth1Irq
import DanubeBsp.Ssc
import DanubeBsp.SscStream
import DanubeBsp.SscCalls
import DanubeBsp.SscOwner
import DanubeBsp.SscExclusive
import DanubeBsp.SscRx
import DanubeBsp.Gpio
import DanubeBsp.Led
import DanubeBsp.LedPins
import DanubeBsp.LedConfig
import DanubeBsp.LedRuns
import DanubeBsp.Eeprom
import DanubeBsp.EepromFrames
import DanubeBsp.EepromData
import DanubeBsp.EepromRoundTrip
import DanubeBsp.RegisterField
import DanubeBsp.Adm6996
import DanubeBsp.Adm6996Fields
import DanubeBsp.Adm6996Calls
import DanubeBsp.Adm6996Runs
import DanubeBsp.DebugServer
import DanubeBsp.DebugServerStream
import DanubeBsp.CircularScan
import DanubeBsp.FastBuf
import DanubeBsp.FastBufAlloc
import DanubeBsp.TpeFifoCalls
import DanubeBsp.TpeFifoBounds
import DanubeBsp.TpeFifoSpace
import DanubeBsp.TpeSend
import DanubeBsp.VoiceWrite
import DanubeBsp.AscTx
import DanubeBsp.AscTxRuns
import DanubeBsp.Wdt
import DanubeBsp.WdtFields
import DanubeBsp.VcpuMbx
import DanubeBsp.VcpuMbxRuns
import DanubeBsp.WdtRuns
import DanubeBsp.AmazonImage
import DanubeBsp.AmazonImageAgree
import DanubeBsp.VoiceRead
import DanubeBsp.VoiceUpstream
import DanubeBsp.VoiceChannel
import DanubeBsp.AcquireLock
import DanubeBsp.BufferQueue
import DanubeBsp.DataList
import DanubeBsp.DmaTxPointer
import DanubeBsp.DmaWfq
import DanubeBsp.DmaProgress
import DanubeBsp.DmaIteration
import DanubeBsp.MeiImage
import DanubeBsp.MpsSkb
import DanubeBsp.MeiChunks
import DanubeBsp.MeiHdlc
import DanubeBsp.MeiHdlcRead
import DanubeBsp.BlockModes
import DanubeBsp.MibLineRate
import DanubeBsp.MibTraps
import DanubeBsp.DeuModes
import DanubeBsp.DeuSetKey
import DanubeBsp.PpaRx
import DanubeBsp.PagedReads
import DanubeBsp.CursorScan
import DanubeBsp.PackedWord
import DanubeBsp.ProcDma
import DanubeBsp.ProcDmaReads
import DanubeBsp.ProcMem
import DanubeBsp.SscConfig
import DanubeBsp.SscConfigRuns
import DanubeBsp.SscFrame
import DanubeBsp.SscRead
import DanubeBsp.SscReadRuns
import DanubeBsp.SscSession
import DanubeBsp.SscSessionRuns
import DanubeBsp.LedFailure
import DanubeBsp.LedFields
import DanubeBsp.LedFrame
import DanubeBsp.LedSingles
import DanubeBsp.LedExact
import DanubeBsp.LongDivision
import DanubeBsp.Uint64
import DanubeBsp.CguPll
import DanubeBsp.CguClocks
import DanubeBsp.CguClockPlan
import DanubeBsp.CguClockSignal
import DanubeBsp.CguClockSources
import DanubeBsp.CguClocksRight
import DanubeBsp.Adm6996Bandwidth
import DanubeBsp.Adm6996Mac
import DanubeBsp.Blocks
import DanubeBsp.Memcopy
import DanubeBsp.MemcopyRecv
import DanubeBsp.AscSettings
import DanubeBsp.NandCmd
import DanubeBsp.AscRx
import DanubeBsp.EepromTotal
import DanubeBsp.EepromFile
import DanubeBsp.DebugRead
import DanubeBsp.ReadDm
import DanubeBsp.AccessLog
import DanubeBsp.SwProcWords
import DanubeBsp.SwProcWrite
import DanubeBsp.SwProcSteps
import DanubeBsp.GptuDivider
import DanubeBsp.Icu
import DanubeBsp.WdtTimeouts
import DanubeBsp.PciConfig
import DanubeBsp.PciConfigBytes
import DanubeBsp.PciConfigCalls
import DanubeBsp.PciConfigRight
import DanubeBsp.AtmDevs
import DanubeBsp.Koam
import DanubeBsp.PromCmdline
import DanubeBsp.PromCmdlineMem
import DanubeBsp.PromCmdlineRight
import DanubeBsp.DmaUnregister
import DanubeBsp.DmaUnregisterRx
import DanubeBsp.NandEcc
import DanubeBsp.NandPage
import DanubeBsp.MeiBoot
import DanubeBsp.CreditRing
import DanubeBsp.NicstarTst
import DanubeBsp.NicstarCbr
import DanubeBsp.FlagRing
import DanubeBsp.NicstarScq
import DanubeBsp.NicstarTx
import DanubeBsp.NicstarTxRuns
import DanubeBsp.NicstarTxExact
import DanubeBsp.NicstarTxSafe
import DanubeBsp.NicstarRxBufs
import DanubeBsp.NicstarRx
import DanubeBsp.NicstarRxOwner
import DanubeBsp.Aal5
import DanubeBsp.NicstarRxPdu
import DanubeBsp.NicstarRxLine
import DanubeBsp.NicstarRxDeliver
import DanubeBsp.NicstarRxRuns
import DanubeBsp.NicstarRxExact
