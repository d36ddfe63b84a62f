import Netcfgd.OwnedRoutes
import Netcfgd.ConfirmWindow
import Netcfgd.LastGood
import Netcfgd.ConfigChange
import Netcfgd.PrivilegeGap
import Netcfgd.Reported
import Netcfgd.LaterWins
import Netcfgd.CanonicalForm
import Netcfgd.StationsSettle
import Netcfgd.AdvertiseNoticed
import Netcfgd.BlockFile
import Netcfgd.KeyWalk
import Netcfgd.SecretWalk
import Netcfgd.StagedOnce
import Netcfgd.MailboxDelivers
import Netcfgd.KeyCurrency
import Netcfgd.RequestSurvives
import Netcfgd.Rate
import Netcfgd.Offload
import Netcfgd.Rules
import Netcfgd.ProfileSave
import Netcfgd.BridgeVlans
import Netcfgd.LinksetNesting
import Netcfgd.Sims
import Netcfgd.OwnedUpdate
import Netcfgd.Leftovers
import Netcfgd.NetlinkVerdict
import Netcfgd.DnsSettles
import Netcfgd.NftOneTable
import Netcfgd.SeenStations
import Netcfgd.SeenRecord
import Netcfgd.FirewallWarn
import Netcfgd.Contention
import Netcfgd.DhcpScript
import Netcfgd.DnsDeliver
import Netcfgd.WifiJoin
import Netcfgd.ApplyStops
import Netcfgd.Delegation
import Netcfgd.ScheduleInstants
import Netcfgd.ServedRange
import Netcfgd.Labels
import Netcfgd.WireWalk
import Netcfgd.RuleWire
import Netcfgd.Utf8Readers
