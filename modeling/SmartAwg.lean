import SmartAwg.GoOutcome
import SmartAwg.GoUtf8
import SmartAwg.GoStrings
import SmartAwg.GoStrconv
import SmartAwg.GoCodec
import SmartAwg.GoNetIP
import SmartAwg.ConfTypes
import SmartAwg.ConfValidate
import SmartAwg.ConfParser
import SmartAwg.ConfSafety
import SmartAwg.ConfWriter
import SmartAwg.ConfLines
import SmartAwg.ConfValues
import SmartAwg.ConfEndpoint
import SmartAwg.ConfRoundTrip
import SmartAwg.ConfReread
import SmartAwg.ConfLossless
import SmartAwg.ConfAccepted
import SmartAwg.GoNetPrefix
import SmartAwg.GoScanner
import SmartAwg.RouteTable
import SmartAwg.ConfUapi
import SmartAwg.DeviceObf
import SmartAwg.DeviceUapi
import SmartAwg.DeviceRun
import SmartAwg.DeviceMerge
import SmartAwg.DeviceAccepts
import SmartAwg.FirstMatch
import SmartAwg.GoFilepath
import SmartAwg.GoFilepathClean
import SmartAwg.GoFilepathVolume
import SmartAwg.GoFilepathAgain
import SmartAwg.GoUtf8Ends
import SmartAwg.GoProgramName
import SmartAwg.GoUrl
import SmartAwg.GoNetCIDR
import SmartAwg.GoNetMasks
import SmartAwg.SmartNormalize
import SmartAwg.SmartCatalog
import SmartAwg.SmartSettings
import SmartAwg.SmartPresets
import SmartAwg.SmartFiles
import SmartAwg.SmartStore
import SmartAwg.SmartIsolation
import SmartAwg.SmartHistory
import SmartAwg.SmartDamage
import SmartAwg.SmartBuild
import SmartAwg.SmartEngine
import SmartAwg.SmartPolicy
import SmartAwg.SmartExplain
import SmartAwg.SmartPeers
import SmartAwg.TunnelFirewall
import SmartAwg.Fallible
import SmartAwg.ManagerWorld
import SmartAwg.ManagerNative
import SmartAwg.ManagerSmart
import SmartAwg.ManagerStart
import SmartAwg.ManagerRun
import SmartAwg.ManagerExclusion
import SmartAwg.ManagerGuard
import SmartAwg.ManagerOrphans
import SmartAwg.ManagerAgreement
import SmartAwg.ManagerRollback
import SmartAwg.ImportTokens
import SmartAwg.ImportSingleUse
import SmartAwg.SmartConsistent
import SmartAwg.SmartParameters
import SmartAwg.KeyedList
import SmartAwg.ConfNames
import SmartAwg.ConfStore
import SmartAwg.ProfileImport
import SmartAwg.BackupRestore
import SmartAwg.ManagerSupervisor
import SmartAwg.ManagerCoalesce
import SmartAwg.ManagerPower
import SmartAwg.ManagerRecovery
import SmartAwg.StreamReader
import SmartAwg.GoGob
import SmartAwg.ManagerEvents
import SmartAwg.ImportAccept
import SmartAwg.RenameRepeated
import SmartAwg.SmartRuleIDs
import SmartAwg.SmartStableValues
import SmartAwg.DeviceHeaders
import SmartAwg.DeviceChain
import SmartAwg.SmartDisconnect
import SmartAwg.SmartStable
import SmartAwg.GoJsonText
import SmartAwg.SmartEnvelope
import SmartAwg.BackupRoundTrip
import SmartAwg.GoSort
import SmartAwg.ConfNameOrder
import SmartAwg.ManagerTracker
import SmartAwg.GoCompact
import SmartAwg.ConfDeduplicate
import SmartAwg.ConfFromUapi
import SmartAwg.TunnelRoutes
import SmartAwg.TunnelGuid
import SmartAwg.LowestFirst
import SmartAwg.TunnelDefaultRoute
import SmartAwg.ManagerFingerprint
import SmartAwg.BackupNames
import SmartAwg.SmartForget
import SmartAwg.RingBuffer
import SmartAwg.RingLogger
import SmartAwg.RingFollow
import SmartAwg.ManagerNesting
import SmartAwg.EditDialog
import SmartAwg.ReplayFilter
import SmartAwg.GoBinary
import SmartAwg.DeviceFrame
import SmartAwg.DeviceTransport
import SmartAwg.NonceCounter
import SmartAwg.HandshakeTimers
