import BitDht.Bencode.Release
import BitDht.Bencode.Room
import BitDht.Bencode.Spelling
import BitDht.Dht.Answers
import BitDht.Dht.Safety
import BitDht.Dht.Sizes
import BitDht.Hash.Modify
import BitDht.Hash.Search
import BitDht.Manager.Address
import BitDht.Manager.Correspondence
import BitDht.Manager.NodeIdText
import BitDht.Manager.Packet
import BitDht.Manager.Queries
import BitDht.Manager.Requests
import BitDht.Manager.Sources
import BitDht.Manager.Stopped
import BitDht.Node.Amplification
import BitDht.Node.Blacklist
import BitDht.Node.Calls
import BitDht.Node.Delivery
import BitDht.Node.Effects
import BitDht.Node.Extraction
import BitDht.Node.Fairness
import BitDht.Node.KeyOrder
import BitDht.Node.Leftover
import BitDht.Node.Rendezvous
import BitDht.Node.Replies
import BitDht.Node.Tick
import BitDht.Node.Tokens
import BitDht.Node.Trailer
import BitDht.Peer.Asking
import BitDht.Peer.BucketDistance
import BitDht.Peer.Closest
import BitDht.Peer.FinalState
import BitDht.Peer.FlaggedSize
import BitDht.Peer.Halting
import BitDht.Peer.IdOrder
import BitDht.Peer.Nearest
import BitDht.Peer.NetworkSize
import BitDht.Peer.Replacement
import BitDht.Peer.StoreFile
import BitDht.Tunnel.TransIds
