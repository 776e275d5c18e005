import KeyRelay.Span
import KeyRelay.Material

/-!
Keys as they are stored and handed out. A key is either replayable, stored as the spans of
pool bytes that make it up (a `KeyRow`, which the node at the other end of the link replays),
or held in the clear (a `LocalKey`: a prefetched key on the first hop, a relayed key on the
last). An application receives a key as a `KeyContainer` with base64 material.
-/
namespace KeyRelay

/-- The spans of one key, kept until the node that replays them asks. -/
structure KeyRow where
  keyId : KeyId
  ksid : Ksid
  link : LinkId
  spans : List Span
  /-- A one-time key that only masks a relayed key. -/
  relay : Bool
  /-- Creation time, seconds since the epoch. -/
  createdAt : Nat
deriving DecidableEq, Repr, Inhabited

/-- A key handed to an application. -/
structure KeyContainer where
  keyId : KeyId
  /-- The material in base64. -/
  key : String
deriving DecidableEq, Repr, Inhabited

/-- A key held in the clear. -/
structure LocalKey where
  ksid : Ksid
  keyId : KeyId
  material : Material
  /-- Storage time, seconds since the epoch. -/
  createdAt : Nat
deriving DecidableEq, Repr, Inhabited

/-- A link as one of its ends sees it. -/
structure LinkRecord where
  link : LinkId
  /-- The node at the other end, once the controller confirmed the link. -/
  companion : Option KmeId
  /-- Its address, once confirmed. -/
  address : Option String
  /-- Estimated generation rate, bits per second. -/
  rate : Float
  /-- Block lifetime on the link, seconds. -/
  ttlSecs : Nat
  /-- First block arrival, seconds since the epoch. -/
  createdAt : Nat
deriving Repr, Inhabited

end KeyRelay
