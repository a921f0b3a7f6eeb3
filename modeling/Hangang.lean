import Hangang.CachePolicy.Freshness
import Hangang.ClientHello.Read
import Hangang.TransformBody.Probe
import Hangang.TransformBody.Records
import Hangang.Guard.Fence
import Hangang.GatewayConfig.Warnings
import Hangang.ConfigStore.Export
import Hangang.AdminUsers.Quota
import Hangang.AdminUsers.Ledgers
import Hangang.Kubernetes.Freshness
import Hangang.Balance.Publication
import Hangang.Balance.Selection
import Hangang.Balance.InitialCheck
import Hangang.PathRateLimits.Bound
import Hangang.ClientHello.Format
import Hangang.ConfigStore.Bootstrap
import Hangang.TrustedProxy
import Hangang.Guard.Snapshot
import Hangang.LanguagePolicy
import Hangang.NativeHuman.Seal
import Hangang.Projection.Entity
import Hangang.Projection.Permit
import Hangang.NativeRouteOwner.Monotone
import Hangang.RequestBlocks.Fence
import Hangang.RequestBlocks.Blocked
import Hangang.TcpHealth
import Hangang.BasicAuth
import Hangang.JwtRuntime.RefreshMonitor
import Hangang.JwksRemote.Discipline
import Hangang.Proxy.Renewal
import Hangang.Proxy.Cookies
import Hangang.Kubernetes.Statuses
import Hangang.Acme.Receipts
import Hangang.Acme.Issuance
import Hangang.Policy
import Hangang.Discovery
import Hangang.Transform.JsonPointer
import Hangang.Transform.Replace
import Hangang.SecurityEvents
import Hangang.Cache.Accounting
import Hangang.Kubernetes.ResourceCache
import Hangang.Dsr
import Hangang.Cache.Quota
