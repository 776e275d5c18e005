import KeyRelay.Session
import KeyRelay.Table

/-!
Sessions indexed by session id and by application pair. When a pair registers again the pair
index follows the newest session; the older one stays reachable by id until removed, and
removing it leaves the pair entry of the newer one alone.
-/
namespace KeyRelay

/-- Sessions by id and by (master, slave) application pair. -/
structure SessionIndex where
  byKsid : Table Ksid SessionRecord := {}
  byApps : Table (AppId × AppId) Ksid := {}
deriving Inhabited

namespace SessionIndex

/-- Adds or replaces a session; gives the record it replaced. -/
def insert (ix : SessionIndex) (r : SessionRecord) : SessionIndex × Option SessionRecord :=
  ({ byApps := ix.byApps.insert (r.src, r.dst) r.ksid, byKsid := ix.byKsid.insert r.ksid r },
    ix.byKsid.get? r.ksid)

/-- Removes a session and, if it still owns it, its pair entry. -/
def remove (ix : SessionIndex) (k : Ksid) : SessionIndex × Option SessionRecord :=
  match ix.byKsid.get? k with
  | none => (ix, none)
  | some r =>
    let byApps :=
      if ix.byApps.get? (r.src, r.dst) = some k then ix.byApps.erase (r.src, r.dst) else ix.byApps
    ({ byKsid := ix.byKsid.erase k, byApps }, some r)

/-- The session with an id. -/
def get? (ix : SessionIndex) (k : Ksid) : Option SessionRecord := ix.byKsid.get? k

/-- The session of an application pair. -/
def byPair? (ix : SessionIndex) (src dst : AppId) : Option SessionRecord :=
  ix.byApps.get? (src, dst) >>= ix.byKsid.get?

/-- Number of sessions. -/
def size (ix : SessionIndex) : Nat := ix.byKsid.size

/-- All sessions by ascending id. -/
def sorted (ix : SessionIndex) : List SessionRecord := sortedBy (·.ksid.val) ix.byKsid.values

end SessionIndex

end KeyRelay
