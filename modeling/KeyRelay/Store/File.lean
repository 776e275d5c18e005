import KeyRelay.Store.Basic
import KeyRelay.Env

/-!
A node's records kept in a file. The file holds six tables from byte strings to values, each
read back in the order of its keys, byte by byte. A block, link or session is filed under its
identifier's sixteen big-endian bytes; a link's index files a block under its link, timestamp
and arrival number, the last two as eight big-endian bytes each; rows and clear keys are filed
under their session and key id. A record is kept as itself: the file's codec reads back what it
wrote. Each operation is one transaction, and a failed one writes nothing.

The interface both kinds of records answer is `StoreCall`, one call at a time.
-/
namespace KeyRelay

/-- The eight big-endian bytes of a 64-bit word. -/
def wordBytes (v : Nat) : List UInt8 := Ident.bigEndian 8 v

/-- Where a link's index files a block. -/
def linkBlockKey (link : LinkId) (timestamp arrival : Nat) : List UInt8 :=
  link.toBytes ++ wordBytes timestamp ++ wordBytes arrival

/-- Where a row or clear key of a session is filed. -/
def sessionKey (ksid : Ksid) (key : KeyId) : List UInt8 := ksid.toBytes ++ key.toBytes

namespace Table

variable {α : Type}

/-- The entries whose keys lie from `lo` to `hi`, both included, in key order. -/
def between (t : Table (List UInt8) α) (lo hi : List UInt8) : List (List UInt8 × α) :=
  (t.entries.filter fun e => decide (lo ≤ e.1) && decide (e.1 ≤ hi)).mergeSort
    fun a b => decide (a.1 ≤ b.1)

/-- Every entry, in key order. -/
def inOrder (t : Table (List UInt8) α) : List (List UInt8 × α) :=
  t.entries.mergeSort fun a b => decide (a.1 ≤ b.1)

end Table

/-- The tables of the file. `linkBlocks` files block ids, as bytes, by link and age. -/
structure FileStore where
  blocks : Table (List UInt8) Block := {}
  linkBlocks : Table (List UInt8) (List UInt8) := {}
  links : Table (List UInt8) LinkRecord := {}
  keyRows : Table (List UInt8) KeyRow := {}
  localKeys : Table (List UInt8) LocalKey := {}
  sessions : Table (List UInt8) SessionRecord := {}
deriving Inhabited

namespace FileStore

/-- The first and last keys a session's entries can have. -/
def sessionRange (ksid : Ksid) : List UInt8 × List UInt8 :=
  (sessionKey ksid ⟨0⟩, sessionKey ksid ⟨Ident.space - 1⟩)

/-- Adds a block and its index entry unless a block of its id is filed. -/
def insertBlock (f : FileStore) (b : Block) : Bool × FileStore :=
  if f.blocks.contains b.id.toBytes then (false, f)
  else (true, { f with blocks := f.blocks.insert b.id.toBytes b,
                       linkBlocks := f.linkBlocks.insert (linkBlockKey b.link b.timestamp b.arrival)
                         b.id.toBytes })

def loadBlock (f : FileStore) (id : BlockId) : Option Block := f.blocks.get? id.toBytes

/-- Writes back the filed block with the cursor and reference count of `b`. -/
def updateBlock (f : FileStore) (b : Block) : Except StoreError FileStore :=
  match f.blocks.get? b.id.toBytes with
  | none => .error (.notFound "block" (toString b.id))
  | some stored =>
    if stored.link ≠ b.link then
      .error (.conflict ("block " ++ toString b.id ++ " belongs to link " ++ toString stored.link))
    else
      let updated := { stored with offset := b.offset, inUse := b.inUse }
      .ok { f with blocks := f.blocks.insert b.id.toBytes updated }

/-- Removes a block and the index entry at its own link, timestamp and arrival. -/
def deleteBlock (f : FileStore) (id : BlockId) : FileStore :=
  match f.blocks.get? id.toBytes with
  | none => f
  | some b => { f with blocks := f.blocks.erase id.toBytes,
                       linkBlocks := f.linkBlocks.erase (linkBlockKey b.link b.timestamp b.arrival) }

/-- The blocks a link's index names, in the order of its keys; a name with no block is passed
over. -/
def blocksForLink (f : FileStore) (link : LinkId) : List Block :=
  (f.linkBlocks.between (linkBlockKey link 0 0) (linkBlockKey link Env.wordMax Env.wordMax)).filterMap
    fun e => f.blocks.get? e.2

def listBlocks (f : FileStore) : List Block := f.blocks.inOrder.map (·.2)

def storeLink (f : FileStore) (l : LinkRecord) : FileStore :=
  { f with links := f.links.insert l.link.toBytes l }

def listLinks (f : FileStore) : List LinkRecord := f.links.inOrder.map (·.2)

/-- The first link, in key order, whose other end is `companion`. -/
def linkByCompanion (f : FileStore) (companion : KmeId) : Option LinkRecord :=
  f.listLinks.find? (·.companion = some companion)

def storeRows (f : FileStore) (rows : List KeyRow) : FileStore :=
  { f with keyRows := rows.foldl (fun t r => t.insert (sessionKey r.ksid r.keyId) r) f.keyRows }

def takeRow (f : FileStore) (ksid : Ksid) (key : KeyId) : Option KeyRow × FileStore :=
  (f.keyRows.get? (sessionKey ksid key), { f with keyRows := f.keyRows.erase (sessionKey ksid key) })

/-- Removes a session's entries of a table filed by session and key id, in key order: all of
them, or only the first. -/
def takeEntries {α : Type} (t : Table (List UInt8) α) (ksid : Ksid) (firstOnly : Bool) :
    List α × Table (List UInt8) α :=
  let found := t.between (sessionRange ksid).1 (sessionRange ksid).2
  let taken := if firstOnly then found.take 1 else found
  (taken.map (·.2), taken.foldl (fun t e => t.erase e.1) t)

def takeSessionRows (f : FileStore) (ksid : Ksid) : List KeyRow × FileStore :=
  ((takeEntries f.keyRows ksid false).1, { f with keyRows := (takeEntries f.keyRows ksid false).2 })

def storeLocals (f : FileStore) (keys : List LocalKey) : FileStore :=
  { f with localKeys := keys.foldl (fun t k => t.insert (sessionKey k.ksid k.keyId) k) f.localKeys }

/-- Removes a clear key of a session: the one named, or the first in key order. -/
def takeLocal (f : FileStore) (ksid : Ksid) : Option KeyId → Option LocalKey × FileStore
  | some key =>
    (f.localKeys.get? (sessionKey ksid key),
      { f with localKeys := f.localKeys.erase (sessionKey ksid key) })
  | none =>
    ((takeEntries f.localKeys ksid true).1.getLast?,
      { f with localKeys := (takeEntries f.localKeys ksid true).2 })

def purgeLocals (f : FileStore) (ksid : Ksid) : Nat × FileStore :=
  ((takeEntries f.localKeys ksid false).1.length,
    { f with localKeys := (takeEntries f.localKeys ksid false).2 })

def countSessionKeys (f : FileStore) (ksid : Ksid) : Nat :=
  (f.keyRows.between (sessionRange ksid).1 (sessionRange ksid).2).length +
    (f.localKeys.between (sessionRange ksid).1 (sessionRange ksid).2).length

def storeSession (f : FileStore) (r : SessionRecord) : FileStore :=
  { f with sessions := f.sessions.insert r.ksid.toBytes r }

def deleteSession (f : FileStore) (ksid : Ksid) : FileStore :=
  { f with sessions := f.sessions.erase ksid.toBytes }

def listSessions (f : FileStore) : List SessionRecord := f.sessions.inOrder.map (·.2)

end FileStore

/-- A call of the records' interface. -/
inductive StoreCall where
  | insertBlock (b : Block)
  | loadBlock (id : BlockId)
  | updateBlock (b : Block)
  | deleteBlock (id : BlockId)
  | blocksForLink (link : LinkId)
  | listBlocks
  | storeLink (l : LinkRecord)
  | listLinks
  | linkByCompanion (companion : KmeId)
  | storeKeyRows (rows : List KeyRow)
  | takeKeyRow (ksid : Ksid) (key : KeyId)
  | takeSessionRows (ksid : Ksid)
  | storeLocalKeys (keys : List LocalKey)
  | takeLocalKey (ksid : Ksid) (key : Option KeyId)
  | purgeLocalKeys (ksid : Ksid)
  | countSessionKeys (ksid : Ksid)
  | storeSession (r : SessionRecord)
  | deleteSession (ksid : Ksid)
  | listSessions

/-- What a call gives back. -/
inductive StoreReply where
  | added (fresh : Bool)
  | block (b : Option Block)
  | done
  | failed (e : StoreError)
  | blocks (bs : List Block)
  | links (ls : List LinkRecord)
  | link (l : Option LinkRecord)
  | row (r : Option KeyRow)
  | rows (rs : List KeyRow)
  | localKey (k : Option LocalKey)
  | count (n : Nat)
  | sessions (rs : List SessionRecord)

/-- The reply of a write that may fail; a failed one leaves the records as they were. -/
def StoreReply.ofWrite {σ : Type} (before : σ) : Except StoreError σ → StoreReply × σ
  | .ok after => (.done, after)
  | .error e => (.failed e, before)

namespace Store

/-- Answers one call from the records in memory. -/
def answer (s : Store) : StoreCall → StoreReply × Store
  | .insertBlock b => (s.insertBlock b).map .added id
  | .loadBlock id => (.block (s.loadBlock id), s)
  | .updateBlock b => StoreReply.ofWrite s (s.updateBlock b)
  | .deleteBlock id => (.done, s.deleteBlock id)
  | .blocksForLink link => (.blocks (s.blocksForLink link), s)
  | .listBlocks => (.blocks s.listBlocks, s)
  | .storeLink l => (.done, s.storeLink l)
  | .listLinks => (.links s.listLinks, s)
  | .linkByCompanion c => (.link (s.linkByCompanion c), s)
  | .storeKeyRows rows => (.done, s.storeRows rows)
  | .takeKeyRow ksid key => (s.takeRow ksid key).map .row id
  | .takeSessionRows ksid => (s.takeSessionRows ksid).map .rows id
  | .storeLocalKeys keys => (.done, s.storeLocals keys)
  | .takeLocalKey ksid key => (s.takeLocal ksid key).map .localKey id
  | .purgeLocalKeys ksid => (s.purgeLocals ksid).map .count id
  | .countSessionKeys ksid => (.count (s.countSessionKeys ksid), s)
  | .storeSession r => (.done, s.storeSession r)
  | .deleteSession ksid => (.done, s.deleteSession ksid)
  | .listSessions => (.sessions s.listSessions, s)

/-- The replies to calls made one after another. -/
def replies (s : Store) : List StoreCall → List StoreReply
  | [] => []
  | c :: rest => (s.answer c).1 :: replies (s.answer c).2 rest

end Store

namespace FileStore

/-- Answers one call from the file. -/
def answer (f : FileStore) : StoreCall → StoreReply × FileStore
  | .insertBlock b => (f.insertBlock b).map .added id
  | .loadBlock id => (.block (f.loadBlock id), f)
  | .updateBlock b => StoreReply.ofWrite f (f.updateBlock b)
  | .deleteBlock id => (.done, f.deleteBlock id)
  | .blocksForLink link => (.blocks (f.blocksForLink link), f)
  | .listBlocks => (.blocks f.listBlocks, f)
  | .storeLink l => (.done, f.storeLink l)
  | .listLinks => (.links f.listLinks, f)
  | .linkByCompanion c => (.link (f.linkByCompanion c), f)
  | .storeKeyRows rows => (.done, f.storeRows rows)
  | .takeKeyRow ksid key => (f.takeRow ksid key).map .row id
  | .takeSessionRows ksid => (f.takeSessionRows ksid).map .rows id
  | .storeLocalKeys keys => (.done, f.storeLocals keys)
  | .takeLocalKey ksid key => (f.takeLocal ksid key).map .localKey id
  | .purgeLocalKeys ksid => (f.purgeLocals ksid).map .count id
  | .countSessionKeys ksid => (.count (f.countSessionKeys ksid), f)
  | .storeSession r => (.done, f.storeSession r)
  | .deleteSession ksid => (.done, f.deleteSession ksid)
  | .listSessions => (.sessions f.listSessions, f)

def replies (f : FileStore) : List StoreCall → List StoreReply
  | [] => []
  | c :: rest => (f.answer c).1 :: replies (f.answer c).2 rest

end FileStore

end KeyRelay
