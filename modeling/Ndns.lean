import Ndns.Lib.Backtrack
import Ndns.Lib.Descent
import Ndns.Lib.Dialogue
import Ndns.Lib.Tlv
import Ndns.IterativeQuery
import Ndns.UriParser
import Ndns.Delegation
import Ndns.Termination
import Ndns.HintAgreement
import Ndns.QueryUpdate
import Ndns.DynamicDnsUpdate
import Ndns.Lib.Effect
import Ndns.Lib.SqlText
import Ndns.Lib.Table
import Ndns.SqlStatement
import Ndns.Database
import Ndns.DbMgr
import Ndns.DyndnsMgr
import Ndns.UpdateFrame
import Ndns.Consistency
import Ndns.Lib.Machine
import Ndns.Lib.OrderedSet
import Ndns.QueryMgr
import Ndns.Records
import Ndns.UpdateRuns
import Ndns.ZoneRegister
import Ndns.DatabaseRuns
import Ndns.StatementRuns
import Ndns.UpdatePlan
import Ndns.NameServer
import Ndns.NameServerReplies
import Ndns.AdversarialReplies
import Ndns.HintPairs
import Ndns.NameCachingResolver
import Ndns.ResponseRoundTrips
import Ndns.UpdateInterests
import Ndns.Lib.Cache
import Ndns.ResponseCache
import Ndns.ResponseUpdateCache
import Ndns.QueryVerdicts
import Ndns.DbFiles
import Ndns.Retransmission
import Ndns.ReadBack
import Ndns.Branches
import Ndns.DecoderBounds
import Ndns.ListAccesses
import Ndns.FailedStatements
import Ndns.RegistrationRuns
import Ndns.SubzoneLookups
import Ndns.NameDig
import Ndns.UpdateLists
import Ndns.DbConnection
import Ndns.DbStatus
import Ndns.LookedUpIds
import Ndns.TimeToLive
import Ndns.Decoding
import Ndns.UpdateCalls
import Ndns.Lib.Exchange
import Ndns.PlainNames
import Ndns.ServedStores
import Ndns.Sites
import Ndns.ResolverNetwork
import Ndns.ResolverProgress
import Ndns.PlainResolutions
import Ndns.HintedResolutions
import Ndns.HintedNetwork
import Ndns.DigNetwork
import Ndns.Lib.Handled
import Ndns.UpdatedSites
import Ndns.UpdateNetwork
import Ndns.UpdatedResolutions
import Ndns.NetworkAgreement
import Ndns.DelegatedWorlds
import Ndns.StartedSites
import Ndns.RegisteredSites
import Ndns.DeployedNetwork
