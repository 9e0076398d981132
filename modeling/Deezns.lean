import Deezns.PolicyLists
import Deezns.MappedAddresses
import Deezns.Mediation
import Deezns.Spelling
import Deezns.Lifetime
import Deezns.DnsTcp
import Deezns.Exchange
import Deezns.Agreement
import Deezns.Stacking
import Deezns.Nss
import Deezns.Answers
import Deezns.BestFit
import Deezns.Datagrams
import Deezns.Deadlines
import Deezns.HostReplies
import Deezns.NscdRequests
import Deezns.Validation
import Deezns.Loading
import Deezns.HostsLines
import Deezns.WholeDaemon
import Deezns.Startup
import Deezns.Nixos
import Deezns.Clients
import Deezns.Probing
import Deezns.SameNames
import Deezns.RuleViews
import Deezns.Trust
import Deezns.Meaning
import Deezns.Senders
import Deezns.Connections
import Deezns.Dialogues
