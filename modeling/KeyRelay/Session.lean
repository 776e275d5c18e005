import KeyRelay.Role
import KeyRelay.RateArith

/-!
Sessions: end-to-end connections between a master application, which asks for keys, and a
slave application, which retrieves them. A session runs along a path of nodes from the
master's node to the slave's node, both included, and relays keys when the path has more than
two nodes.
-/
namespace KeyRelay

/-- The service an application pair asks for: key bits per request and the spacing of
requests. Two registrations match only when they ask for the same. -/
structure Qos where
  keyChunkSize : Nat
  requestIntervalMs : Nat
deriving DecidableEq, Repr, Inhabited

/-- The rate asked for, bits per second; a zero spacing counts as one millisecond. -/
def Qos.rate {R : Type} [RateArith R] (q : Qos) : R :=
  RateArith.ofNat q.keyChunkSize * RateArith.ofNat 1000 / RateArith.ofNat (max q.requestIntervalMs 1)

/-- The outcome of registering one side of a connection. -/
inductive Registration where
  /-- Both sides matched and a path was reserved. -/
  | registered (ksid : Ksid)
  /-- Waiting for the other side. -/
  | pending
deriving DecidableEq, Repr, Inhabited

/-- A session as every node on its path sees it. -/
structure SessionRecord where
  ksid : Ksid
  src : AppId
  dst : AppId
  kmeSrc : KmeId
  kmeDst : KmeId
  qos : Qos
  path : List KmeId
  /-- Creation time, seconds since the epoch. -/
  createdAt : Nat
deriving DecidableEq, Repr, Inhabited

namespace SessionRecord

/-- Keys are relayed through intermediate nodes. -/
def relay (r : SessionRecord) : Bool := r.path.length > 2

/-- Where a node stands on the path. -/
def position (r : SessionRecord) (kme : KmeId) : Option Nat := Role.position? r.path kme

/-- The hop before a node, towards the master. -/
def previousHop (r : SessionRecord) (kme : KmeId) : Option KmeId := do
  let i ← r.position kme
  if i = 0 then none else r.path[i - 1]?

/-- The hop after a node, towards the slave. -/
def nextHop (r : SessionRecord) (kme : KmeId) : Option KmeId := do
  let i ← r.position kme
  r.path[i + 1]?

end SessionRecord

end KeyRelay
