import KeyRelay.Key
import KeyRelay.Block
import KeyRelay.Session
import KeyRelay.Table
import KeyRelay.Store.Error

/-!
What a node keeps: its blocks, with an index of each link's blocks by arrival; its link
records; the rows of keys it will replay; keys held in the clear; and its sessions.

The index of a link's blocks is keyed by (link, timestamp, arrival number), so a link's blocks
come oldest first, ties broken by arrival. Rows and clear keys are keyed by (session, key id)
and a session's entries come by ascending key id; whole-table listings come by ascending id.
-/
namespace KeyRelay

/-- The records of one node. -/
structure Store where
  blocks : Table BlockId Block := {}
  chain : Table (LinkId × Nat × Nat) BlockId := {}
  links : Table LinkId LinkRecord := {}
  rows : Table (Ksid × KeyId) KeyRow := {}
  locals : Table (Ksid × KeyId) LocalKey := {}
  sessions : Table Ksid SessionRecord := {}
deriving Inhabited

namespace Store

/-- Adds a block unless one with its id is present; tells whether it was added. -/
def insertBlock (s : Store) (b : Block) : Bool × Store :=
  if s.blocks.contains b.id then (false, s)
  else (true, { s with chain := s.chain.insert (b.link, b.timestamp, b.arrival) b.id,
                       blocks := s.blocks.insert b.id b })

/-- The block with an id. -/
def loadBlock (s : Store) (id : BlockId) : Option Block := s.blocks.get? id

/-- Stores a block's cursor and reference count; the block must exist on the same link. -/
def updateBlock (s : Store) (b : Block) : Except StoreError Store :=
  match s.blocks.get? b.id with
  | none => .error (.notFound "block" (toString b.id))
  | some stored =>
    if stored.link ≠ b.link then
      .error (.conflict ("block " ++ toString b.id ++ " belongs to link " ++ toString stored.link))
    else .ok { s with blocks := s.blocks.modify b.id fun st =>
      { st with offset := b.offset, inUse := b.inUse } }

/-- Removes a block and its index entry. -/
def deleteBlock (s : Store) (id : BlockId) : Store :=
  match s.blocks.get? id with
  | none => s
  | some b => { s with blocks := s.blocks.erase id,
                       chain := s.chain.erase (b.link, b.timestamp, b.arrival) }

/-- The blocks of a link, oldest first. -/
def blocksForLink (s : Store) (link : LinkId) : List Block :=
  let entries := s.chain.entries.filter (·.1.1 = link)
  (sortedBy2 (fun e => (e.1.2.1, e.1.2.2)) entries).filterMap fun e => s.blocks.get? e.2

/-- Every block, by ascending id. -/
def listBlocks (s : Store) : List Block := sortedBy (·.id.val) s.blocks.values

/-- Adds or replaces a link record. -/
def storeLink (s : Store) (l : LinkRecord) : Store := { s with links := s.links.insert l.link l }

/-- Every link record, by ascending id. -/
def listLinks (s : Store) : List LinkRecord := sortedBy (·.link.val) s.links.values

/-- The link whose other end is `companion`. -/
def linkByCompanion (s : Store) (companion : KmeId) : Option LinkRecord :=
  s.listLinks.find? (·.companion = some companion)

/-- The keys of a session's entries, by ascending key id. -/
def sessionKeys {α : Type} (t : Table (Ksid × KeyId) α) (ksid : Ksid) : List (Ksid × KeyId) :=
  sortedBy (·.2.val) (t.keys.filter (·.1 = ksid))

/-- Adds or replaces rows. -/
def storeRows (s : Store) (rows : List KeyRow) : Store :=
  { s with rows := rows.foldl (fun t r => t.insert (r.ksid, r.keyId) r) s.rows }

/-- Removes and gives one row. -/
def takeRow (s : Store) (ksid : Ksid) (key : KeyId) : Option KeyRow × Store :=
  (s.rows.get? (ksid, key), { s with rows := s.rows.erase (ksid, key) })

/-- Removes and gives every row of a session, by ascending key id. -/
def takeSessionRows (s : Store) (ksid : Ksid) : List KeyRow × Store :=
  let ks := sessionKeys s.rows ksid
  (ks.filterMap s.rows.get?, { s with rows := s.rows.filter fun k _ => k.1 ≠ ksid })

/-- Adds or replaces clear keys. -/
def storeLocals (s : Store) (keys : List LocalKey) : Store :=
  { s with locals := keys.foldl (fun t k => t.insert (k.ksid, k.keyId) k) s.locals }

/-- Removes and gives a clear key of a session: the one named, or the one of least id. -/
def takeLocal (s : Store) (ksid : Ksid) (key : Option KeyId) : Option LocalKey × Store :=
  let slot := match key with
    | some k => some (ksid, k)
    | none => (sessionKeys s.locals ksid).head?
  match slot with
  | none => (none, s)
  | some slot => (s.locals.get? slot, { s with locals := s.locals.erase slot })

/-- Removes every clear key of a session; gives how many there were. -/
def purgeLocals (s : Store) (ksid : Ksid) : Nat × Store :=
  ((sessionKeys s.locals ksid).length, { s with locals := s.locals.filter fun k _ => k.1 ≠ ksid })

/-- Rows and clear keys held for a session. -/
def countSessionKeys (s : Store) (ksid : Ksid) : Nat :=
  (sessionKeys s.rows ksid).length + (sessionKeys s.locals ksid).length

/-- Adds or replaces a session record. -/
def storeSession (s : Store) (r : SessionRecord) : Store :=
  { s with sessions := s.sessions.insert r.ksid r }

/-- Removes a session record. -/
def deleteSession (s : Store) (ksid : Ksid) : Store := { s with sessions := s.sessions.erase ksid }

/-- Every session record, by ascending id. -/
def listSessions (s : Store) : List SessionRecord := sortedBy (·.ksid.val) s.sessions.values

end Store

end KeyRelay
