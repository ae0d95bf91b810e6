import HyperFaaS.Autoscaling.PolicyWindow
import HyperFaaS.Autoscaling.ScaleSignals
import HyperFaaS.Cluster.Orphans
import HyperFaaS.ControlPlane.ConfigMailbox
import HyperFaaS.ControlPlane.ConfigWatch
import HyperFaaS.ControlPlane.ConfigWrites
import HyperFaaS.ControlPlane.Equivalence
import HyperFaaS.ControlPlane.FunctionSubscriber
import HyperFaaS.ControlPlane.FunctionWatch
import HyperFaaS.ControlPlane.Identifiers
import HyperFaaS.ControlPlane.Seeding
import HyperFaaS.Ingress.CapacityPick
import HyperFaaS.Ingress.DeltaProtocol
import HyperFaaS.Ingress.RingRebuild
import HyperFaaS.Leaf.FunctionLifecycle
import HyperFaaS.Leaf.PlacementAgreement
import HyperFaaS.Leaf.StrictScale
import HyperFaaS.Runtime.PlacementWindow
import HyperFaaS.Scheduler.BoundedLoads
import HyperFaaS.Worker.Health
import HyperFaaS.Worker.HostPorts
import HyperFaaS.Worker.NetnsLedger
import HyperFaaS.Worker.NetworkReach
import HyperFaaS.Worker.ReadyHandshake
import HyperFaaS.Worker.RuncLedger
import HyperFaaS.Worker.Snapshots
