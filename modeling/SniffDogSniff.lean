import SniffDogSniff.Base.XorMetric
import SniffDogSniff.Base.Comparator
import SniffDogSniff.Base.OrdMap
import SniffDogSniff.Base.Runs
import SniffDogSniff.Base.LittleEndian
import SniffDogSniff.Base.Traced
import SniffDogSniff.Common.SdsBytesBuf
import SniffDogSniff.Common.StringUtil
import SniffDogSniff.Kademlia.KadId
import SniffDogSniff.Kademlia.KadBucket
import SniffDogSniff.Kademlia.KadRoutingTable
import SniffDogSniff.Kademlia.ClosestTo
import SniffDogSniff.Kademlia.TableFile
import SniffDogSniff.SdsCore.SimHash
import SniffDogSniff.SdsCore.SearchEntry
import SniffDogSniff.P2P.P2PCommon
import SniffDogSniff.P2P.Decoding
import SniffDogSniff.Base.Prog
import SniffDogSniff.SdsCore.SearchEntriesDB
import SniffDogSniff.SdsCore.LocalNode
import SniffDogSniff.P2P.SdsP2PServer
import SniffDogSniff.P2P.SdsP2PClient
import SniffDogSniff.P2P.Agreement
import SniffDogSniff.SdsCore.EntriesPublishTask
import SniffDogSniff.Base.OrdSet
import SniffDogSniff.SdsCore.DoSearch
import SniffDogSniff.Common.TypedValues
import SniffDogSniff.P2P.Framing
import SniffDogSniff.P2P.Replies
import SniffDogSniff.P2P.Answers
import SniffDogSniff.Webserver.HttpServer
import SniffDogSniff.Webserver.HttpMessage
import SniffDogSniff.SdsCore.StoreRuns
import SniffDogSniff.SdsCore.StoredLinks
import SniffDogSniff.SdsCore.Expiry
import SniffDogSniff.SdsCore.NodesLookupTask
import SniffDogSniff.SdsCore.SearchPushes
import SniffDogSniff.SdsCore.NodeRuns
import SniffDogSniff.SdsCore.SimHashVotes
import SniffDogSniff.SdsCore.LookupTargets
import SniffDogSniff.SdsCore.LookupUpdates
import SniffDogSniff.SdsCore.LocalResults
import SniffDogSniff.SdsCore.SdsConfigFile
import SniffDogSniff.Kademlia.OwnEntries
import SniffDogSniff.P2P.ClientSlots
import SniffDogSniff.Common.Decimal
import SniffDogSniff.Webserver.HttpResponse
import SniffDogSniff.Webserver.Receive
import SniffDogSniff.SdsCore.Fnv128
import SniffDogSniff.Kademlia.BucketRuns
import SniffDogSniff.Kademlia.FailedReads
import SniffDogSniff.P2P.Truncated
import SniffDogSniff.SdsCore.ConfigText
import SniffDogSniff.Common.BufferGrowth
import SniffDogSniff.Common.LetterCase
import SniffDogSniff.SdsCore.EntryChecks
import SniffDogSniff.SdsCore.StoreCalls
import SniffDogSniff.Net.NetUtil
import SniffDogSniff.Net.Socks5
import SniffDogSniff.Kademlia.HexId
import SniffDogSniff.Webserver.Unescape
import SniffDogSniff.Common.Splits
import SniffDogSniff.Common.Trims
import SniffDogSniff.Net.TorReply
import SniffDogSniff.Net.Stun
import SniffDogSniff.Net.StunWrite
import SniffDogSniff.Crawler.CrawlerUtils
import SniffDogSniff.Crawler.SearchEngine
import SniffDogSniff.Crawler.ScanDocument
import SniffDogSniff.Crawler.UrlQueue
import SniffDogSniff.Webserver.InsertEntry
import SniffDogSniff.Kademlia.BucketOrder
import SniffDogSniff.Common.Tokens
import SniffDogSniff.SdsCore.LineTrim
import SniffDogSniff.SdsCore.TaskParts
import SniffDogSniff.P2P.Exchange
import SniffDogSniff.P2P.NodeNetwork
import SniffDogSniff.P2P.Bindings
import SniffDogSniff.P2P.EntryOrigins
import SniffDogSniff.Net.TorControl
import SniffDogSniff.Net.TorSession
import SniffDogSniff.Net.TorProtocol
import SniffDogSniff.P2P.NewConnection
import SniffDogSniff.Crawler.CrawlRuns
import SniffDogSniff.Kademlia.CutFiles
import SniffDogSniff.P2P.TableChanges
import SniffDogSniff.SdsCore.ConfigLookups
import SniffDogSniff.P2P.Lives
import SniffDogSniff.P2P.ProxySettings
import SniffDogSniff.SdsCore.SdsTask
