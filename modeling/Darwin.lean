import Darwin.Bootp.DhcpPacket
import Darwin.Bootp.DhcpdRun
import Darwin.Bootp.LeaseRoundTrip
import Darwin.Bootp.SubnetList
import Darwin.Configd.Transaction
import Darwin.Hfs.BTree.Descent
import Darwin.Hfs.BTree.HintFree
import Darwin.Hfs.BTree.Iteration
import Darwin.Hfs.BTree.KeyRecord
import Darwin.Hfs.BTree.NodeMapRun
import Darwin.Hfs.Encodings
import Darwin.Hfs.ExchangeAtomic
import Darwin.Hfs.ExtendResult
import Darwin.Hfs.IteratorPoolRun
import Darwin.Hfs.MacRoman
import Darwin.Hfs.MangledLookup
import Darwin.Hfs.ReaddirRun
import Darwin.Hfs.UnicodeCompare
import Darwin.Hfs.VolumeAnyFree
import Darwin.Hfs.VolumeFiles
import Darwin.IOKit.DataQueue
import Darwin.IOKit.MemoryCursor
import Darwin.IOKit.MultiMemoryDescriptor
import Darwin.IOKit.NameRegistry
import Darwin.IOKit.NvramSync
import Darwin.IOKit.PhysicalSegment
import Darwin.IOKit.RangeClients
import Darwin.Ipc.CopyoutBody
import Darwin.Ipc.Hash
import Darwin.Ipc.MqueueCount
import Darwin.Ipc.MqueueDelivery
import Darwin.Ipc.PortRequest
import Darwin.Ipc.PortTransitRun
import Darwin.Ipc.Scatter
import Darwin.Ipc.SplayTraverse
import Darwin.Kern.CalloutThreadsRun
import Darwin.Kern.ThreadCallRun
import Darwin.Kext.LoadModule
import Darwin.Kext.VersionOrder
import Darwin.Libkern.IsEqualTo
import Darwin.Libkern.OSData
import Darwin.Libkern.OSSet
import Darwin.Libkern.SymbolRun
import Darwin.Libkern.XmlObjects
import Darwin.Netinfo.DsengineIndexRun
import Darwin.Netinfo.DsengineSearch
import Darwin.Netinfo.DsfilterKleene
import Darwin.Netinfo.DsindexMap
import Darwin.Netinfo.DsrecordDecode
import Darwin.Netinfo.DsrecordEqual
import Darwin.Netinfo.DsstoreRun
import Darwin.Objc.ClassCachesRun
import Darwin.Objc.HashTableRefine
import Darwin.Objc.MapTableRefine
import Darwin.Pager.BackingStoreRun
import Darwin.Startup.SystemStarter
import Darwin.Vfs.UtfAccept
