import Brume.Datagram
import Brume.Delivery
import Brume.Exchange
import Brume.Handshake
import Brume.HappyEyeballs.Race
import Brume.Installer.ConfigFile
import Brume.Installer.Dialog
import Brume.Installer.Iptables
import Brume.Installer.LegacyArguments
import Brume.Installer.Modify
import Brume.Installer.Nftables
import Brume.Installer.Upgrade
import Brume.Precedence
import Brume.Registry.Refinement
import Brume.Registry.Separation
import Brume.Server.Authentication
import Brume.Server.Deadline
import Brume.Server.Expiry
import Brume.Server.Failover
import Brume.Server.IdleTimeout
import Brume.Server.Isolation
import Brume.Server.Rotation
import Brume.Server.Teardown
import Brume.UdpAssociation
