import KeyRelay.Proofs.RelayOrder
import KeyRelay.Proofs.FailedRequest
import KeyRelay.Proofs.Masking
import KeyRelay.Proofs.Acknowledgement

/-! A ledger of the keys of a network, kept beside it. The book records the bytes every block
holds, the record of every session the controller opened, the session and bytes of every key a
node issued, and how far each key has gone on its way to the slave application (`Stage`): kept
in the clear at a relayed session's master, relayed along the path, waiting at the slave's node,
or redeemed.

A node's records agree with the book (`Store.Tallied`) when every block holds the book's bytes,
every row spells its key's bytes under its spans and every clear key holds its key's bytes, and
the keys the slave's node could hand out, and the prefetched keys a relayed session's master
keeps, are at the stage that says so. Stages only move forward, so a key redeemed once is never
waiting again. -/

namespace KeyRelay

/-- How far a key has gone on its way to the slave application. -/
inductive Stage where
  | unborn
  | parked
  | relayed
  | ready
  | spent
deriving DecidableEq, Repr

/-- The order in which a key passes the stages. -/
def Stage.rank : Stage → Nat
  | .unborn => 0
  | .parked => 1
  | .relayed => 2
  | .ready => 3
  | .spent => 4

/-- The bytes that blocks holding `bytes` spell under the spans, in order. -/
def spell (bytes : BlockId → List UInt8) (spans : List Span) : Material :=
  Material.concat (spans.map fun s => ((bytes s.block).drop s.start).take s.len)

namespace SessionRecord

/-- How the slave's node hands out the session's keys: replayed from rows (`true`) or from the
clear (`false`); nothing when its role serves no keys. -/
def replays (r : SessionRecord) : Option Bool :=
  match r.role r.kmeDst with
  | .ok (.direct (some _)) => some true
  | .ok (.direct none) => some false
  | .ok (.last _) => some false
  | _ => none

/-- The master's node relays the session's keys along a longer path. -/
def Relayed (r : SessionRecord) : Prop := ∃ next, r.role r.kmeSrc = .ok (.first next)

end SessionRecord

/-- The ledger: the bytes of each block, the record of each session opened, the session and
bytes of each key issued, and the stage of each key. -/
structure Book where
  bytes : BlockId → List UInt8
  sessions : Ksid → Option SessionRecord
  keys : KeyId → Option (Ksid × Material)
  stage : KeyId → Stage

namespace Book

variable (β : Book)

/-- The slave's node `X` would hand the row's key out by replaying the row. -/
def Replays (X : KmeId) (row : KeyRow) : Prop :=
  ∃ r, β.sessions row.ksid = some r ∧ r.kmeDst = X ∧ r.replays = some true

/-- The slave's node `X` would hand the clear key out as it is. -/
def HandsOut (X : KmeId) (l : LocalKey) : Prop :=
  ∃ r, β.sessions l.ksid = some r ∧ r.kmeDst = X ∧ r.replays = some false

/-- Node `X` keeps the clear key as the master of a relayed session, for a later request. -/
def Parks (X : KmeId) (l : LocalKey) : Prop :=
  ∃ r, β.sessions l.ksid = some r ∧ r.kmeSrc = X ∧ r.Relayed

/-- A row held at node `X` spells its key's bytes, of a session the book knows; a key the
slave's node would replay from it waits there. -/
def RowOk (X : KmeId) (row : KeyRow) : Prop :=
  β.keys row.keyId = some (row.ksid, spell β.bytes row.spans) ∧ (β.sessions row.ksid).isSome ∧
    (β.Replays X row → β.stage row.keyId = .ready)

/-- A clear key held at node `X` holds its key's bytes, of a session the book knows; a key the
slave's node would hand out waits there, and one a relayed session's master keeps is parked. -/
def LocalOk (X : KmeId) (l : LocalKey) : Prop :=
  β.keys l.keyId = some (l.ksid, l.material) ∧ (β.sessions l.ksid).isSome ∧
    (β.HandsOut X l → β.stage l.keyId = .ready) ∧ (β.Parks X l → β.stage l.keyId = .parked)

/-- Node `Y` holds key `i` to its stage: the slave's node while the key waits, or the relayed
session's master while the key is parked. -/
def Claims (Y : KmeId) (i : KeyId) : Prop :=
  ∃ s m r, β.keys i = some (s, m) ∧ β.sessions s = some r ∧
    ((r.kmeDst = Y ∧ β.stage i = .ready) ∨ (r.kmeSrc = Y ∧ r.Relayed ∧ β.stage i = .parked))

/-- A key as handed to an application has the bytes the book has for it. -/
def Issued (c : KeyContainer) : Prop := ∃ s m, β.keys c.keyId = some (s, m) ∧ c.key = m.encode

/-- Identifiers past the counter are unknown to the book. -/
def Below (e : Env) : Prop :=
  ∀ i : Ident, e.counter < i.val → β.keys i = none ∧ β.stage i = .unborn ∧ β.sessions i = none

/-- A later book: the same bytes, more sessions and keys, and every key at the same stage or
further on. -/
structure Grows (β' : Book) : Prop where
  bytes : β'.bytes = β.bytes
  sessions : ∀ s r, β.sessions s = some r → β'.sessions s = some r
  keys : ∀ i v, β.keys i = some v → β'.keys i = some v
  rank : ∀ i, (β.stage i).rank ≤ (β'.stage i).rank

/-- A later book whose stages moved only for keys no node but `X` holds to their stage. -/
def Confined (X : KmeId) (β' : Book) : Prop :=
  β.Grows β' ∧ ∀ i, β'.stage i ≠ β.stage i → ∀ Y, Y ≠ X → ¬ β.Claims Y i

variable {β} {β' β'' : Book}

theorem Grows.refl (β : Book) : β.Grows β := ⟨rfl, fun _ _ found => found, fun _ _ found => found, fun _ => le_rfl⟩

theorem Grows.trans (first : β.Grows β') (second : β'.Grows β'') : β.Grows β'' :=
  ⟨second.bytes.trans first.bytes, fun s r found => second.sessions s r (first.sessions s r found),
    fun i v found => second.keys i v (first.keys i v found), fun i => (first.rank i).trans (second.rank i)⟩

theorem Grows.isSome (grows : β.Grows β') {s : Ksid} (known : (β.sessions s).isSome) : β'.sessions s = β.sessions s := by
  obtain ⟨r, found⟩ := Option.isSome_iff_exists.mp known
  rw [found, grows.sessions s r found]

/-- A key held to its stage before a later book still is, when its stage stayed. -/
theorem Claims.grow (claims : β.Claims Y i) (grows : β.Grows β') (same : β'.stage i = β.stage i) : β'.Claims Y i := by
  obtain ⟨s, m, r, key, session, held⟩ := claims
  exact ⟨s, m, r, grows.keys i _ key, grows.sessions s r session, same ▸ held⟩

theorem Confined.refl (X : KmeId) (β : Book) : β.Confined X β := ⟨.refl β, fun _ moved => absurd rfl moved⟩

theorem Confined.trans {X : KmeId} (first : β.Confined X β') (second : β'.Confined X β'') : β.Confined X β'' := by
  refine ⟨first.1.trans second.1, fun i moved Y other claims => ?_⟩
  by_cases early : β'.stage i = β.stage i
  · exact second.2 i (early ▸ moved) Y other (claims.grow first.1 early)
  · exact first.2 i early Y other claims

theorem Replays.grow {X : KmeId} {row : KeyRow} (known : (β.sessions row.ksid).isSome) (grows : β.Grows β') :
    β'.Replays X row ↔ β.Replays X row := by
  simp only [Replays, grows.isSome known]

theorem HandsOut.grow {X : KmeId} {l : LocalKey} (known : (β.sessions l.ksid).isSome) (grows : β.Grows β') :
    β'.HandsOut X l ↔ β.HandsOut X l := by
  simp only [HandsOut, grows.isSome known]

theorem Parks.grow {X : KmeId} {l : LocalKey} (known : (β.sessions l.ksid).isSome) (grows : β.Grows β') :
    β'.Parks X l ↔ β.Parks X l := by
  simp only [Parks, grows.isSome known]

/-- A row stays as the book has it at `X` when its key kept its stage or `X` would not replay it. -/
theorem RowOk.grow {X : KmeId} {row : KeyRow} (ok : β.RowOk X row) (grows : β.Grows β')
    (settled : β'.stage row.keyId = β.stage row.keyId ∨ ¬ β.Replays X row) : β'.RowOk X row := by
  obtain ⟨key, known, waits⟩ := ok
  refine ⟨by rw [grows.bytes]; exact grows.keys _ _ key, by rw [grows.isSome known]; exact known, fun replays => ?_⟩
  have replays := (Replays.grow known grows).mp replays
  rcases settled with same | idle
  · rw [same]
    exact waits replays
  · exact absurd replays idle

theorem LocalOk.grow {X : KmeId} {l : LocalKey} (ok : β.LocalOk X l) (grows : β.Grows β')
    (settled : β'.stage l.keyId = β.stage l.keyId ∨ ¬ β.HandsOut X l ∧ ¬ β.Parks X l) : β'.LocalOk X l := by
  obtain ⟨key, known, waits, parked⟩ := ok
  refine ⟨grows.keys _ _ key, by rw [grows.isSome known]; exact known, fun out => ?_, fun parks => ?_⟩
  · have out := (HandsOut.grow known grows).mp out
    rcases settled with same | ⟨idle, -⟩
    · rw [same]
      exact waits out
    · exact absurd out idle
  · have parks := (Parks.grow known grows).mp parks
    rcases settled with same | ⟨-, idle⟩
    · rw [same]
      exact parked parks
    · exact absurd parks idle

/-- A row whose key `X` does not hold to its stage is no row `X` would replay. -/
theorem RowOk.idle {X : KmeId} {row : KeyRow} (ok : β.RowOk X row) (free : ¬ β.Claims X row.keyId) :
    ¬ β.Replays X row := by
  rintro ⟨r, session, dst, replays⟩
  exact free ⟨row.ksid, _, r, ok.1, session, .inl ⟨dst, ok.2.2 ⟨r, session, dst, replays⟩⟩⟩

theorem LocalOk.idle {X : KmeId} {l : LocalKey} (ok : β.LocalOk X l) (free : ¬ β.Claims X l.keyId) :
    ¬ β.HandsOut X l ∧ ¬ β.Parks X l := by
  refine ⟨fun ⟨r, session, dst, replays⟩ => ?_, fun ⟨r, session, src, relayed⟩ => ?_⟩
  · exact free ⟨l.ksid, _, r, ok.1, session, .inl ⟨dst, ok.2.2.1 ⟨r, session, dst, replays⟩⟩⟩
  · exact free ⟨l.ksid, _, r, ok.1, session, .inr ⟨src, relayed, ok.2.2.2 ⟨r, session, src, relayed⟩⟩⟩

end Book

namespace Table

variable {κ α : Type} [DecidableEq κ]

/-- Every entry of the table satisfies `P`. -/
def Each (t : Table κ α) (P : κ → α → Prop) : Prop := ∀ k v, (k, v) ∈ t.entries → P k v

variable {t : Table κ α} {P Q : κ → α → Prop}

omit [DecidableEq κ] in
theorem Each.mono (each : t.Each P) (weaker : ∀ k v, (k, v) ∈ t.entries → P k v → Q k v) : t.Each Q :=
  fun k v member => weaker k v member (each k v member)

theorem Each.get? (each : t.Each P) {k : κ} {v : α} (found : t.get? k = some v) : P k v :=
  each k v (mem_of_get? found)

omit [DecidableEq κ] in
theorem Each.filter (each : t.Each P) (p : κ → α → Bool) : (t.filter p).Each P :=
  fun k v member => each k v (List.mem_filter.mp member).1

theorem Each.erase (each : t.Each P) (k : κ) : (t.erase k).Each fun j v => P j v ∧ j ≠ k := by
  intro j v member
  obtain ⟨old, other⟩ := List.mem_filter.mp member
  exact ⟨each j v old, by simpa using other⟩

theorem Each.insert (each : t.Each P) {k : κ} {v : α} (new : P k v) : (t.insert k v).Each P := by
  intro j w member
  rcases Store.mem_insert_entries member with ⟨rfl, rfl⟩ | ⟨old, -⟩
  · exact new
  · exact each j w old

theorem Each.foldl_insert (key : α → κ) : ∀ (vs : List α) {t : Table κ α},
    t.Each P → (∀ v ∈ vs, P (key v) v) → (vs.foldl (fun t v => t.insert (key v) v) t).Each P
  | [], _, each, _ => each
  | v :: rest, _, each, new =>
    Each.foldl_insert key rest (each.insert (new v List.mem_cons_self)) fun w member =>
      new w (List.mem_cons_of_mem v member)

end Table

namespace Store

/-- Every row and clear key of the records is filed under its own session and id, each row
with `R` and each clear key with `L`. -/
structure Carries (R : KeyRow → Prop) (L : LocalKey → Prop) (d : Store) : Prop where
  rows : d.rows.Each fun k row => k = (row.ksid, row.keyId) ∧ R row
  locals : d.locals.Each fun k l => k = (l.ksid, l.keyId) ∧ L l

section Carries

variable {R R' : KeyRow → Prop} {L L' : LocalKey → Prop} {d : Store}

theorem Carries.mono (carries : d.Carries R L) (rows : ∀ row ∈ d.rows.values, R row → R' row)
    (locals : ∀ l ∈ d.locals.values, L l → L' l) : d.Carries R' L' :=
  ⟨carries.rows.mono fun k row member held => ⟨held.1, rows row (Table.mem_values.mpr ⟨k, member⟩) held.2⟩,
    carries.locals.mono fun k l member held => ⟨held.1, locals l (Table.mem_values.mpr ⟨k, member⟩) held.2⟩⟩

theorem Carries.rowsFiled (carries : d.Carries R L) : d.RowsFiled := fun k row member => (carries.rows k row member).1

theorem Carries.localsFiled (carries : d.Carries R L) : d.LocalsFiled := fun k l member => (carries.locals k l member).1

theorem Carries.row (carries : d.Carries R L) {k : Ksid × KeyId} {row : KeyRow} (found : d.rows.get? k = some row) :
    k = (row.ksid, row.keyId) ∧ R row :=
  carries.rows.get? found

theorem Carries.local (carries : d.Carries R L) {k : Ksid × KeyId} {l : LocalKey} (found : d.locals.get? k = some l) :
    k = (l.ksid, l.keyId) ∧ L l :=
  carries.locals.get? found

theorem Carries.sameKeys (carries : d.Carries R L) {d' : Store} (same : SameKeys d d') : d'.Carries R L := by
  obtain ⟨rows, locals, -⟩ := same
  exact ⟨rows ▸ carries.rows, locals ▸ carries.locals⟩

theorem Carries.storeRows (carries : d.Carries R L) {rows : List KeyRow} (new : ∀ row ∈ rows, R row) :
    (d.storeRows rows).Carries R L :=
  ⟨Table.Each.foldl_insert (fun r : KeyRow => (r.ksid, r.keyId)) rows carries.rows fun row member => ⟨rfl, new row member⟩,
    carries.locals⟩

theorem Carries.storeLocals (carries : d.Carries R L) {keys : List LocalKey} (new : ∀ l ∈ keys, L l) :
    (d.storeLocals keys).Carries R L :=
  ⟨carries.rows, Table.Each.foldl_insert (fun l : LocalKey => (l.ksid, l.keyId)) keys carries.locals fun l member =>
    ⟨rfl, new l member⟩⟩

/-- Taking a row leaves the rows filed under other keys, and gives one filed under the key asked
for. -/
theorem Carries.takeRow_apart (carries : d.Carries R L) (x : Ksid) (key : KeyId) :
    (d.takeRow x key).2.Carries (fun row => R row ∧ (row.ksid, row.keyId) ≠ (x, key)) L ∧
      ∀ row, (d.takeRow x key).1 = some row → (row.ksid, row.keyId) = (x, key) ∧ R row := by
  refine ⟨⟨(carries.rows.erase (x, key)).mono fun k row _ held => ?_, carries.locals⟩, fun row found => ?_⟩
  · obtain ⟨⟨filed, ok⟩, other⟩ := held
    exact ⟨filed, ok, filed ▸ other⟩
  · obtain ⟨filed, ok⟩ := carries.row found
    exact ⟨filed.symm, ok⟩

theorem Carries.takeRow (carries : d.Carries R L) (x : Ksid) (key : KeyId) :
    (d.takeRow x key).2.Carries R L ∧ ∀ row, (d.takeRow x key).1 = some row → R row :=
  let ⟨rest, found⟩ := carries.takeRow_apart x key
  ⟨rest.mono (fun _ _ held => held.1) fun _ _ held => held, fun row taken => (found row taken).2⟩

theorem Carries.takeSessionRows (carries : d.Carries R L) (x : Ksid) :
    (d.takeSessionRows x).2.Carries R L ∧ ∀ row ∈ (d.takeSessionRows x).1, R row := by
  refine ⟨⟨carries.rows.filter _, carries.locals⟩, fun row member => ?_⟩
  obtain ⟨k, -, found⟩ := List.mem_filterMap.mp member
  exact (carries.row found).2

theorem Carries.takeLocal (carries : d.Carries R L) (x : Ksid) (key : Option KeyId) :
    (d.takeLocal x key).2.Carries R L ∧ ∀ l, (d.takeLocal x key).1 = some l → L l := by
  unfold Store.takeLocal
  dsimp only
  split
  · exact ⟨carries, fun _ none => (by cases none)⟩
  · exact ⟨⟨carries.rows, (carries.locals.erase _).mono fun _ _ _ held => held.1⟩, fun _ found => (carries.local found).2⟩

/-- A clear key taken is one of the session, of the id asked for if one was, and the clear keys
left are filed under other keys. -/
theorem Carries.takeLocal_apart (carries : d.Carries R L) (x : Ksid) (key : Option KeyId) {l : LocalKey}
    (found : (d.takeLocal x key).1 = some l) :
    l.ksid = x ∧ (∀ k, key = some k → l.keyId = k) ∧ L l ∧
      (d.takeLocal x key).2.Carries R fun l' => L l' ∧ (l'.ksid, l'.keyId) ≠ (l.ksid, l.keyId) := by
  -- the key taken is the one at its slot, and the slot is erased
  have taken : ∀ slot : Ksid × KeyId, slot.1 = x → (∀ k, key = some k → slot = (x, k)) →
      d.takeLocal x key = (d.locals.get? slot, { d with locals := d.locals.erase slot }) →
      l.ksid = x ∧ (∀ k, key = some k → l.keyId = k) ∧ L l ∧
        (d.takeLocal x key).2.Carries R fun l' => L l' ∧ (l'.ksid, l'.keyId) ≠ (l.ksid, l.keyId) := by
    intro slot own named run
    rw [run] at found ⊢
    obtain ⟨filed, held⟩ := carries.local found
    refine ⟨by rw [← own, filed], fun k same => by rw [named k same] at filed; exact (Prod.mk.inj filed).2.symm,
      held, carries.rows, (carries.locals.erase slot).mono fun j l' _ kept => ?_⟩
    obtain ⟨⟨filed', ok⟩, other⟩ := kept
    exact ⟨filed', ok, by rw [← filed', ← filed]; exact other⟩
  cases key with
  | some k => exact taken (x, k) rfl (fun _ same => by cases same; rfl) rfl
  | none =>
    rcases takeLocal_cases (d := d) (x := x) none with none | ⟨slot, own, run⟩
    · rw [none] at found
      cases found
    · exact taken slot own (fun _ same => by cases same) run

theorem Carries.purgeLocals (carries : d.Carries R L) (x : Ksid) : (d.purgeLocals x).2.Carries R L :=
  ⟨carries.rows, carries.locals.filter _⟩

end Carries

end Store

/-- Every block of `v` holds the bytes `bytes` gives its id. -/
def Spelled (bytes : BlockId → List UInt8) (v : BlockId → Option Block) : Prop :=
  ∀ Y b, v Y = some b → b.bytes = bytes Y

namespace Spelled

variable {bytes : BlockId → List UInt8} {v w : BlockId → Option Block}

theorem shrinks (spelled : Spelled bytes v) (fewer : Shrinks v w) : Spelled bytes w :=
  fun Y b found => spelled Y b (fewer Y b found)

/-- Moving cursors keeps every block's bytes. -/
theorem offsets (spelled : Spelled bytes v) {f : BlockId → Block → Nat}
    (moved : w = fun X => (v X).map fun b => { b with offset := f X b }) : Spelled bytes w := by
  intro Y b found
  rw [moved] at found
  obtain ⟨b₀, was, rfl⟩ := Option.map_eq_some_iff.mp found
  exact spelled Y b₀ was

theorem carves (spelled : Spelled bytes v) {ℓ : LinkId} {C : List Span} (carves : Carves ℓ v C w) : Spelled bytes w :=
  spelled.offsets carves.eq_reach

end Spelled

namespace Store

/-- A node's records as the book has them at node `X`: every block holds the book's bytes, and
every row and clear key is filed under its own session and id and is as the book says. -/
structure Tallied (β : Book) (X : KmeId) (d : Store) : Prop where
  spelled : Spelled β.bytes d.bare
  holds : d.Carries (β.RowOk X) (β.LocalOk X)

/-- The records of a node stay as a later book has them when no key whose stage moved is one
the node holds to its stage. -/
theorem Tallied.grow {β β' : Book} {X : KmeId} {d : Store} (tallied : d.Tallied β X) (grows : β.Grows β')
    (settled : ∀ i, β'.stage i ≠ β.stage i → ¬ β.Claims X i) : d.Tallied β' X := by
  refine ⟨grows.bytes ▸ tallied.spelled, tallied.holds.mono (fun row _ ok => ?_) fun l _ ok => ?_⟩
  · by_cases same : β'.stage row.keyId = β.stage row.keyId
    · exact ok.grow grows (.inl same)
    · exact ok.grow grows (.inr (ok.idle (settled _ same)))
  · by_cases same : β'.stage l.keyId = β.stage l.keyId
    · exact ok.grow grows (.inl same)
    · exact ok.grow grows (.inr (ok.idle (settled _ same)))

end Store

namespace Env

/-- The environment after `n` identifiers are drawn. -/
def after (e : Env) : Nat → Env
  | 0 => e
  | n + 1 => (e.after n).draw.2

/-- The identifiers `n` draws give, in order. -/
def drawn (e : Env) : Nat → List Ident
  | 0 => []
  | n + 1 => e.drawn n ++ [(e.after n).draw.1]

theorem after_add (e : Env) (m : Nat) : ∀ n, (e.after m).after n = e.after (m + n)
  | 0 => rfl
  | n + 1 => by rw [after, after_add e m n]; rfl

theorem length_drawn (e : Env) : ∀ n, (e.drawn n).length = n
  | 0 => rfl
  | n + 1 => by simp [drawn, length_drawn e n]

/-- While the counter stays below the largest identifier, `n` draws add `n` steps to it. -/
theorem after_eq {e : Env} : ∀ {n : Nat}, e.counter + e.step * n < Ident.space →
    e.after n = { e with counter := e.counter + e.step * n }
  | 0, _ => rfl
  | n + 1, room => by
    have earlier : e.counter + e.step * n < Ident.space := by
      rw [Nat.mul_succ] at room
      omega
    rw [after, after_eq earlier]
    simp only [draw, Nat.mul_succ, ← Nat.add_assoc, Nat.mod_eq_of_lt (show e.counter + e.step * n + e.step < Ident.space by
      rw [Nat.mul_succ] at room; omega)]

/-- The identifier the draw after `n` others gives, without wrapping. -/
theorem after_draw_val {e : Env} {n : Nat} (room : e.counter + e.step * (n + 1) < Ident.space) :
    ((e.after n).draw.1).val = e.counter + e.step * (n + 1) := by
  have earlier : e.counter + e.step * n < Ident.space := by
    rw [Nat.mul_succ] at room
    omega
  rw [after_eq earlier]
  simp only [draw]
  rw [Nat.mul_succ, ← Nat.add_assoc] at room ⊢
  exact Nat.mod_eq_of_lt room

/-- Each identifier of `n` draws without wrapping lies past the counter the draws started from
and at most at the counter they end on. -/
theorem drawn_val {e : Env} : ∀ {n : Nat}, e.counter + e.step * n < Ident.space → ∀ i ∈ e.drawn n,
    ∃ j < n, i.val = e.counter + e.step * (j + 1)
  | 0, _, i, member => by cases member
  | n + 1, room, i, member => by
    have earlier : e.counter + e.step * n < Ident.space := by
      rw [Nat.mul_succ] at room
      omega
    rcases List.mem_append.mp member with old | new
    · obtain ⟨j, bound, val⟩ := drawn_val earlier i old
      exact ⟨j, by omega, val⟩
    · rw [List.mem_singleton.mp new]
      exact ⟨n, by omega, after_draw_val room⟩

/-- Draws with a positive step and no wrapping give identifiers in increasing order. -/
theorem drawn_sorted {e : Env} (pos : 0 < e.step) : ∀ {n : Nat}, e.counter + e.step * n < Ident.space →
    (e.drawn n).Pairwise fun a b => a.val < b.val
  | 0, _ => List.Pairwise.nil
  | n + 1, room => by
    have earlier : e.counter + e.step * n < Ident.space := by
      rw [Nat.mul_succ] at room
      omega
    refine List.pairwise_append.mpr ⟨drawn_sorted pos earlier, List.pairwise_singleton _ _, fun a old b new => ?_⟩
    obtain ⟨j, bound, val⟩ := drawn_val earlier a old
    rw [List.mem_singleton.mp new, after_draw_val room, val]
    have : e.step * (j + 1) ≤ e.step * n := Nat.mul_le_mul_left _ bound
    rw [Nat.mul_succ e.step n]
    omega

end Env

end KeyRelay
