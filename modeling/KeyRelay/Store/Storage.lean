import KeyRelay.Store.Basic
import KeyRelay.Store.Chaos
import KeyRelay.Stateful

/-!
A node's handle on its records, as a state monad that fails with a `Fault`. The records live in
memory or in a file; either way the operations mean the same, and a file keeps no count of rows
or clear keys that a report could show. Fault injection, when present, is consulted before each
operation: an operation it fails never reaches the records. A failed operation keeps whatever
was done before it: the monad does not roll back.
-/
namespace KeyRelay

/-- Where the records live. -/
inductive Backend where
  | memory
  | file
deriving DecidableEq, Repr, Inhabited

/-- A node's records, where they live, and the fault injection in front of them. -/
structure Storage where
  backend : Backend := .memory
  data : Store := {}
  chaos : Option Chaos := none
deriving Inhabited

/-- Computations over a node's records. -/
abbrev StoreM := EStateM Fault Storage

namespace Storage

/-- Runs one operation of the records, after fault injection has had its say. -/
def call {α : Type} (operation : String) (write : Bool)
    (f : Store → Except StoreError (α × Store)) : StoreM α := fun st =>
  let (chaos, failure) := match st.chaos with
    | none => (none, none)
    | some c => let (c, e) := c.check operation write; (some c, e)
  let st := { st with chaos }
  match failure with
  | some e => .error e.toFault st
  | none =>
    match f st.data with
    | .ok (a, data) => .ok a { st with data }
    | .error e => .error e.toFault st

/-- A reading operation. -/
def read {α : Type} (operation : String) (f : Store → α) : StoreM α :=
  call operation false fun s => .ok (f s, s)

/-- A writing operation that cannot fail by itself. -/
def write {α : Type} (operation : String) (f : Store → α × Store) : StoreM α :=
  call operation true fun s => .ok (f s)

/-- Schedules the `k`-th operation from now to fail; nothing without fault injection. -/
def failOn (st : Storage) (k : Nat) : Storage :=
  { st with chaos := st.chaos.map fun c => { c with failOn := some (c.operations + k) } }

/-- Adds a block unless one of its id is kept: whether it was added. -/
def insertBlock (b : Block) : StoreM Bool := write "insert_block" (·.insertBlock b)

/-- The block of an id. -/
def loadBlock (id : BlockId) : StoreM (Option Block) := read "load_block" (·.loadBlock id)

/-- Writes back a block's cursor and references; the block must be kept, on the same link. -/
def updateBlock (b : Block) : StoreM Unit :=
  call "update_block" true fun s => (s.updateBlock b).map ((), ·)

/-- Drops a block and its place in its link's order. -/
def deleteBlock (id : BlockId) : StoreM Unit := write "delete_block" fun s => ((), s.deleteBlock id)

/-- A link's blocks, oldest first. -/
def blocksForLink (link : LinkId) : StoreM (List Block) :=
  read "blocks_for_link" (·.blocksForLink link)

/-- All blocks, by id. -/
def listBlocks : StoreM (List Block) := read "list_blocks" Store.listBlocks

/-- Keeps a link record, replacing the one of its id. -/
def storeLink (l : LinkRecord) : StoreM Unit := write "store_link" fun s => ((), s.storeLink l)

/-- All link records. -/
def listLinks : StoreM (List LinkRecord) := read "list_links" Store.listLinks

/-- The link record shared with a companion node. -/
def linkByCompanion (c : KmeId) : StoreM (Option LinkRecord) :=
  read "link_by_companion" (·.linkByCompanion c)

/-- Keeps replayable key rows. -/
def storeKeyRows (rows : List KeyRow) : StoreM Unit :=
  write "store_key_rows" fun s => ((), s.storeRows rows)

/-- Removes and returns the row of a key of a session. -/
def takeKeyRow (ksid : Ksid) (key : KeyId) : StoreM (Option KeyRow) :=
  write "take_key_row" (·.takeRow ksid key)

/-- Removes and returns all rows of a session. -/
def takeSessionRows (ksid : Ksid) : StoreM (List KeyRow) :=
  write "take_session_rows" (·.takeSessionRows ksid)

/-- Keeps clear keys. -/
def storeLocalKeys (keys : List LocalKey) : StoreM Unit :=
  write "store_local_keys" fun s => ((), s.storeLocals keys)

/-- Removes and returns a clear key of a session: the one named, or the least. -/
def takeLocalKey (ksid : Ksid) (key : Option KeyId) : StoreM (Option LocalKey) :=
  write "take_local_key" (·.takeLocal ksid key)

/-- Drops a session's clear keys: how many there were. -/
def purgeLocalKeys (ksid : Ksid) : StoreM Nat := write "purge_local_keys" (·.purgeLocals ksid)

/-- How many rows and clear keys a session has. -/
def countSessionKeys (ksid : Ksid) : StoreM Nat :=
  read "count_session_keys" (·.countSessionKeys ksid)

/-- Keeps a session record, replacing the one of its id. -/
def storeSession (r : SessionRecord) : StoreM Unit :=
  write "store_session" fun s => ((), s.storeSession r)

/-- Drops a session record. -/
def deleteSession (ksid : Ksid) : StoreM Unit :=
  write "delete_session" fun s => ((), s.deleteSession ksid)

/-- All session records. -/
def listSessions : StoreM (List SessionRecord) := read "list_sessions" Store.listSessions

end Storage

end KeyRelay
