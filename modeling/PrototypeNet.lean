import PrototypeNet.Lib.ByteWords
import PrototypeNet.Lib.Buffer
import PrototypeNet.Lib.Fallible
import PrototypeNet.Lib.Base64
import PrototypeNet.Lib.BoundedMap
import PrototypeNet.Lib.UniqueKey
import PrototypeNet.Lib.Runs
import PrototypeNet.Lib.Follower
import PrototypeNet.Lib.OnesComplement
import PrototypeNet.Lib.WordMixing
import PrototypeNet.Lib.Progression
import PrototypeNet.Lib.WordLayers
import PrototypeNet.Lib.SipHash
import PrototypeNet.Lib.ConfigText
import PrototypeNet.Lib.Text
import PrototypeNet.Lib.Transducer
import PrototypeNet.Lib.Xml
import PrototypeNet.Lib.XmlTemplate
import PrototypeNet.Lib.XmlTexts
import PrototypeNet.Common.Address
import PrototypeNet.Common.ProxySource
import PrototypeNet.Common.Stirring
import PrototypeNet.Common.TagHash
import PrototypeNet.Common.KeySeparation
import PrototypeNet.Common.Prince
import PrototypeNet.Common.SipHash
import PrototypeNet.Ebpf.Kernel
import PrototypeNet.Ebpf.Programs
import PrototypeNet.Ebpf.Packet
import PrototypeNet.Nat66.Translation
import PrototypeNet.Nat66.Rewriting
import PrototypeNet.Nat66.Refinement
import PrototypeNet.Nat66.RoundTrip
import PrototypeNet.Nat66.WanParsers
import PrototypeNet.Nat66.Checksum
import PrototypeNet.Nat66.Atomicity
import PrototypeNet.Nat66.DevMode
import PrototypeNet.Daemon.Loader
import PrototypeNet.Daemon.KeyHex
import PrototypeNet.Control.Domains
import PrototypeNet.Control.System
import PrototypeNet.Control.Transitions
import PrototypeNet.Control.Allocation
import PrototypeNet.Control.Delivery
import PrototypeNet.Control.Freshness
import PrototypeNet.Control.Reresolution
import PrototypeNet.Daemon.Supervisor
import PrototypeNet.Daemon.BulkLoad
import PrototypeNet.Nat66.Admission
import PrototypeNet.Agent.Commands
import PrototypeNet.Agent.Profile
import PrototypeNet.Agent.Restore
import PrototypeNet.Xtask.VerifyContract
import PrototypeNet.Lib.Numerals
import PrototypeNet.Dns.Server
import PrototypeNet.Dns.Replies
import PrototypeNet.Dns.Service
import PrototypeNet.Nat66.WanPath
import PrototypeNet.Daemon.Passes
import PrototypeNet.Lib.Ipv6Text
import PrototypeNet.Lib.Json
import PrototypeNet.Lib.JsonRoundTrip
import PrototypeNet.Xtask.DecodeProxySrc
import PrototypeNet.Agent.Files
import PrototypeNet.Agent.Durability
import PrototypeNet.Agent.Bundle
import PrototypeNet.Agent.Setup
import PrototypeNet.Daemon.Startup
import PrototypeNet.Daemon.StartRefinement
