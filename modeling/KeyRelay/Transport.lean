import KeyRelay.Fault

/-!
Failures of the transport between nodes. A call that fails in transport becomes a fault of
the caller: the peer is unreachable, for the reason the transport gives.
-/
namespace KeyRelay

/-- Why a call did not reach its peer or did not come back. -/
inductive TransportError where
  /-- No address is known for the peer. -/
  | unknownPeer (peer : Peer)
  | connect (reason : String)
  /-- The stream broke during the exchange. -/
  | stream (reason : String)
  /-- The peer sent something that does not decode. -/
  | codec (reason : String)
deriving Repr

namespace TransportError

/-- The text of a transport failure. -/
def describe : TransportError → String
  | .unknownPeer peer => "no address for " ++ peer.describe
  | .connect reason => "connect failed: " ++ reason
  | .stream reason => "stream failed: " ++ reason
  | .codec reason => "codec failure: " ++ reason

/-- The fault of a call to `peer` that failed so. -/
def unreachable (e : TransportError) (peer : Peer) : Fault := .unreachable peer e.describe

end TransportError

end KeyRelay
