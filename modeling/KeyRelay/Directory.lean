import KeyRelay.Graph
import KeyRelay.Session.Index

/-!
Where the controller pairs the two sides of a connection. An application's registration waits
until the other side registers the same pair of applications with the same quality of service;
then the two make a pair, the master side first. A waiting registration expires once it is as
old as the time to live. Each pair of applications has one waiting registration per side: a
second one replaces the first.

The directory also holds the open sessions and the rates each one reserved.
-/
namespace KeyRelay

/-- One side's registration. -/
structure AppRequest where
  src : AppId
  dst : AppId
  kme : KmeId
  qos : Qos
  master : Bool
deriving DecidableEq, Repr, Inhabited

/-- What a registration leads to: waiting, or a pair of sides. -/
inductive Matched where
  | pending
  | pair (master slave : AppRequest)
deriving DecidableEq, Repr

/-- Waiting registrations and open sessions. Instants are milliseconds. -/
structure Directory (R : Type) where
  pendingTtlMs : Nat
  /-- Waiting registrations by applications and side, with the instant they came. -/
  pending : Table (AppId × AppId × Bool) (AppRequest × Nat) := {}
  sessions : SessionIndex := {}
  reservations : Table Ksid (Reservation R) := {}
deriving Inhabited

namespace Directory

variable {R : Type}

/-- Drops the registrations that expired at `now`; gives how many. An instant later than
`now` stops the program. -/
def purgeExpired (d : Directory R) (now : Nat) : Except Abort (Nat × Directory R) := do
  let kept ← d.pending.entries.filterM fun (_, (_, t)) => do
    pure ((← CapacityWindow.elapsed now t) < d.pendingTtlMs)
  pure (d.pending.size - kept.length, { d with pending := ⟨kept⟩ })

/-- Registrations waiting. -/
def pendingLen (d : Directory R) : Nat := d.pending.size

/-- Puts a registration back to wait, as of `t`. -/
def requeue (d : Directory R) (r : AppRequest) (t : Nat) : Directory R :=
  { d with pending := d.pending.insert (r.src, r.dst, r.master) (r, t) }

/-- Registers one side: it pairs with the other side's waiting registration of the same
quality of service, or waits. -/
def register (d : Directory R) (r : AppRequest) (now : Nat) : Except Abort (Matched × Directory R) := do
  let (_, d) ← d.purgeExpired now
  let other := (r.src, r.dst, !r.master)
  match d.pending.get? other with
  | some (p, _) =>
    if p.qos = r.qos then
      let d := { d with pending := d.pending.erase other }
      pure (if r.master then .pair r p else .pair p r, d)
    else pure (.pending, d.requeue r now)
  | none => pure (.pending, d.requeue r now)

/-- Records an open session and its reservation. -/
def openSession (d : Directory R) (r : SessionRecord) (res : Reservation R) : Directory R :=
  { d with reservations := d.reservations.insert r.ksid res, sessions := (d.sessions.insert r).1 }

/-- Removes a session: its record and reservation, the latter being the bare path when none
was recorded. -/
def close (d : Directory R) (ksid : Ksid) : Option (SessionRecord × Reservation R) × Directory R :=
  let (sessions, removed) := d.sessions.remove ksid
  match removed with
  | none => (none, d)
  | some r =>
    let res := (d.reservations.get? ksid).getD ⟨r.path, []⟩
    (some (r, res), { d with sessions, reservations := d.reservations.erase ksid })

/-- The reservation of a session. -/
def reservation (d : Directory R) (ksid : Ksid) : Option (Reservation R) := d.reservations.get? ksid

end Directory

end KeyRelay
