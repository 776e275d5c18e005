import KeyRelay.Proofs.Custody
import KeyRelay.Proofs.Undo

/-! A node's handlers followed through the book. Handing keys to the slave redeems them: the
keys were waiting at the slave's node and are redeemed in the later book, with the bytes the
book has for them (`Kme.decKeys_moves`). -/

namespace KeyRelay

namespace Spelled

/-- Giving spans back moves cursors only, so every block keeps its bytes. -/
theorem givenBack {bytes : BlockId → List UInt8} {d d' : Store} (spelled : Spelled bytes d.bare) {C : List Span}
    {release : Bool} (blocks : ∀ X, d'.blocks.get? X = (d.blocks.get? X).map (·.givenBack C release)) :
    Spelled bytes d'.bare := by
  intro Y b found
  simp only [Store.bare, blocks Y, Option.map_map] at found
  obtain ⟨b₀, stored, rfl⟩ := Option.map_eq_some_iff.mp found
  exact spelled Y b₀.bare (by simp [Store.bare, stored])

end Spelled

/-- A list mapped without a failure is mapped element by element. -/
theorem Except.mapM_forall₂ {ε α β : Type} {f : α → Except ε β} {xs : List α} :
    ∀ {ys : List β}, xs.mapM f = .ok ys → List.Forall₂ (fun x y => f x = .ok y) xs ys := by
  induction xs with
  | nil =>
    intro ys mapped
    cases mapped
    exact .nil
  | cons x rest ih =>
    intro ys mapped
    rw [List.mapM_cons] at mapped
    obtain ⟨y, first, mapped⟩ := Except.bind_eq_ok mapped
    obtain ⟨ys', others, mapped⟩ := Except.bind_eq_ok mapped
    cases mapped
    exact .cons first (ih others)

/-- Pairing distinct ids with another list keeps them distinct. -/
theorem nodup_map_zip {α β γ : Type} {f : α → γ} {xs : List α} :
    ∀ {ys : List β}, (xs.map f).Nodup → ((xs.zip ys).map fun p => f p.1).Nodup := by
  induction xs with
  | nil => exact fun _ => List.nodup_nil
  | cons x xs ih =>
    intro ys distinct
    cases ys with
    | nil => exact List.nodup_nil
    | cons y ys =>
      rw [List.map_cons, List.nodup_cons] at distinct
      rw [List.zip_cons_cons, List.map_cons, List.nodup_cons]
      refine ⟨fun member => distinct.1 ?_, ih distinct.2⟩
      obtain ⟨p, listed, same⟩ := List.mem_map.mp member
      rw [← same]
      exact List.mem_map_of_mem (List.of_mem_zip listed).1

namespace Engine

theorem keeps_discard (ksid : Ksid) (keys : List KeyId) : Keeps Kept (discard ksid keys) :=
  Keeps.forM kept_chains _ fun _ _ => Keeps.bind kept_chains (keeps_records (Storage.keeps_takeLocalKey _ _)) fun _ =>
    Keeps.pure kept_chains _

variable {R : KeyRow → Prop} {L : LocalKey → Prop} {bytes : BlockId → List UInt8}

/-- Giving a batch back keeps the records as the book has them: its clear keys go and only
cursors move. -/
theorem spells_undoBatch (ksid : Ksid) (b : Batch) :
    Spec (fun s => s.2.data.Carries R L ∧ s.2.Spelt bytes) (undoBatch ksid b)
      (fun _ s => s.2.data.Carries R L ∧ s.2.Spelt bytes) (fun s => s.2.data.Carries R L ∧ s.2.Spelt bytes) := by
  unfold undoBatch
  refine Spec.bind (spells_of_keeps (keeps_discard ksid _) (carrying_discard ksid _)) fun _ => ?_
  refine Spec.of_ok fun s start => ?_
  obtain ⟨carries, steady, spelled⟩ := start
  obtain ⟨st', run, steady', only, blocks⟩ := Pool.undo_blocks false b.consumed steady
  exact ⟨(), (s.1, st'), records_ok s.1 run, store_onlyBlocks carries only, steady', spelled.givenBack blocks⟩


end Engine

/-- A plan none of whose calls asks anything is carried out in any book. -/
theorem Book.planned_of_free {actions : List Action}
    (free : ∀ a ∈ actions, ∀ c, a.call? = some c → ∀ β : Book, c.Asks β) (β : Book) : β.Planned actions := by
  induction actions generalizing β with
  | nil => trivial
  | cons a rest ih =>
    exact ⟨fun c made => free a List.mem_cons_self c made β,
      fun β' _ => ih (fun a' member => free a' (List.mem_cons_of_mem a member)) β'⟩

namespace Kme

/-- What a node's reply says of the books before and after it handled the request: keys handed
to the master are issued; keys handed to the slave are issued, were waiting, are now redeemed,
and each is handed once. -/
def Replies (β β' : Book) : KmeRequest → Reply → Prop
  | .encKeys .., .ready (.keys cs) => ∀ c ∈ cs, β'.Issued c
  | .decKeys .., .ready (.keys cs) =>
    (cs.map (·.keyId)).Nodup ∧ ∀ c ∈ cs, β.stage c.keyId = .ready ∧ β'.stage c.keyId = .spent ∧ β'.Issued c
  | _, _ => True

variable {β β' β'' : Book} {e₀ : Env} {X : KmeId} {M : KeyId → Prop} {n : Nat}

/-- Where a handler of `req` started from book `β'` has got when it returns plan `p`: a book the
node is in, in which the plan's calls find what they ask, and of which the reply says what it
should; the plan's calls move on only keys the handler may move. -/
def Served (β : Book) (e₀ : Env) (X : KmeId) (M : KeyId → Prop) (n : Nat) (β' : Book) (req : KmeRequest) (p : Plan)
    (s : Env × Kme) : Prop :=
  ∃ β'', Moved β e₀ X M n β'' s ∧ β''.Planned p.actions ∧ Replies β' β'' req p.reply ∧
    ∀ a ∈ p.actions, ∀ i, a.Movable i → M i

theorem mem_containers {keys : List (KeyId × Material)} {c : KeyContainer} (member : c ∈ containers keys) :
    ∃ m, (c.keyId, m) ∈ keys ∧ c.key = m.encode := by
  obtain ⟨⟨k, m⟩, listed, rfl⟩ := List.mem_map.mp member
  exact ⟨m, listed, rfl⟩

theorem containers_keyIds (keys : List (KeyId × Material)) : (containers keys).map (·.keyId) = keys.map (·.1) := by
  simp [containers]

theorem stays_pickLink (pool : Pool) (needed : Nat) : ∀ (offered : List (LinkId × KmeId)) (best : Option (LinkId × Nat)),
    Keeps Engine.Stays (pickLink pool needed offered best)
  | [], _ => Keeps.pure Engine.stays_chains _
  | (ℓ, c) :: rest, best => by
    rw [pickLink]
    refine Keeps.bind Engine.stays_chains (Engine.stays_available pool ℓ) fun available => ?_
    split
    · exact Keeps.pure Engine.stays_chains _
    · exact stays_pickLink pool needed rest _

theorem sweepQuietly_moved :
    Triple (Moved β e₀ X M n β') sweepQuietly (fun _ => Moved β e₀ X M n β') (Tracked β e₀ X M n) := by
  unfold sweepQuietly
  refine Triple.bind triple_current fun k => ?_
  -- the sweep's failure is ignored, so only what the sweep keeps is needed
  have quiet : ∀ {R : Env × Storage → Env × Storage → Prop}, Chains R → Keeps R (Engine.sweep k.pool) →
      Keeps R (EStateM.attempt (do let _ ← Engine.sweep k.pool)) :=
    fun chains inner => Keeps.attempt chains (Keeps.bind chains inner fun _ => Keeps.pure chains _)
  exact (triple_engine_kept (quiet Engine.kept_chains (Engine.keeps_sweep _))
    (quiet Engine.carrying_chains (Engine.carrying_of_sameKeys (Engine.keeps_sameKeys_sweep _)))
    (quiet Engine.stays_chains (Engine.stays_sweep _))).conseq
    (fun _ start => start.1) (fun _ _ done => done) fun _ failed => failed

section Steps

variable {α : Type}

theorem current_moved : Triple (Moved β e₀ X M n β') current (fun k s => Moved β e₀ X M n β' s ∧ k.id = X)
    (Tracked β e₀ X M n) :=
  fun _ moved => ⟨moved, moved.id⟩

theorem current_booked : Triple (Moved β e₀ X M n β') current
    (fun k s => Moved β e₀ X M n β' s ∧ k.id = X ∧ k.Booked β') (Tracked β e₀ X M n) :=
  fun _ moved => ⟨moved, moved.id, moved.booked⟩

theorem lift_moved (r : Except Fault α) :
    Triple (Moved β e₀ X M n β') (lift r) (fun a s => Moved β e₀ X M n β' s ∧ r = .ok a) (Tracked β e₀ X M n) :=
  (triple_lift_yields r (fun a => r = .ok a) fun _ same => same).conseq (fun _ moved => moved)
    (fun _ _ done => done) fun _ moved => moved.tracked

theorem fail_moved (f : Fault) {Q : α → Env × Kme → Prop} :
    Triple (Moved β e₀ X M n β') (fail f) Q (Tracked β e₀ X M n) :=
  triple_fail f fun _ moved => moved.tracked

theorem checkCount_moved (count : Nat) :
    Triple (Moved β e₀ X M n β') (checkCount count) (fun _ => Moved β e₀ X M n β') (Tracked β e₀ X M n) :=
  (triple_checkCount count).conseq (fun _ moved => moved) (fun _ _ done => done) fun _ moved => moved.tracked

theorem wallSecs_moved :
    Triple (Moved β e₀ X M n β') wallSecs (fun _ => Moved β e₀ X M n β') (Tracked β e₀ X M n) :=
  triple_wallSecs

end Steps

/-- The node with another index of sessions, each filed under its id as the book has it. -/
theorem Moved.reindex {s : Env × Kme} (moved : Moved β e₀ X M n β' s) {ix : SessionIndex}
    (index : ∀ x r, ix.get? x = some r → r.ksid = x ∧ β'.sessions x = some r) :
    Moved β e₀ X M n β' (s.1, { s.2 with sessions := ix }) :=
  ⟨moved.id, ⟨moved.booked.tallied, moved.booked.steady, index⟩, moved.below, moved.confined, moved.moves, moved.drew⟩

/-- Changing the node's index of sessions to one whose sessions are each the book's. -/
theorem reindex_moved {A : Env × Kme → Prop} (g : Kme → SessionIndex)
    (index : ∀ s, Moved β e₀ X M n β' s → A s → ∀ x r, (g s.2).get? x = some r → r.ksid = x ∧ β'.sessions x = some r) :
    Triple (fun s => Moved β e₀ X M n β' s ∧ A s) (change fun k => { k with sessions := g k })
      (fun _ => Moved β e₀ X M n β') (Tracked β e₀ X M n) :=
  fun s start => start.1.reindex (index s start.1 start.2)

theorem Tracked.mono {s : Env × Kme} {m : Nat} (tracked : Tracked β e₀ X M n s) (le : n ≤ m) :
    Tracked β e₀ X M m s := by
  obtain ⟨β', moved⟩ := tracked
  exact (moved.mono le fun _ held => held).tracked

/-- A node's computation that fails within a budget of draws fails within a larger one. -/
theorem widen {α : Type} {m₀ : KmeM α} {P : Env × Kme → Prop} {Q : α → Env × Kme → Prop} {m : Nat}
    (t : Triple P m₀ Q (Tracked β e₀ X M n)) (le : n ≤ m) : Triple P m₀ Q (Tracked β e₀ X M m) :=
  t.conseq (fun _ start => start) (fun _ _ done => done) fun _ failed => failed.mono le

theorem Served.mono {s : Env × Kme} {req : KmeRequest} {p : Plan} {m : Nat} (served : Served β e₀ X M n β' req p s)
    (le : n ≤ m) : Served β e₀ X M m β' req p s := by
  obtain ⟨β'', moved, planned, replies, within⟩ := served
  exact ⟨β'', moved.mono le fun _ held => held, planned, replies, within⟩

/-- A handler served within a budget of draws is served within a larger one. -/
theorem widen_served {m₀ : KmeM Plan} {P : Env × Kme → Prop} {req : KmeRequest} {m : Nat}
    (t : Triple P m₀ (Served β e₀ X M n β' req) (Tracked β e₀ X M n)) (le : n ≤ m) :
    Triple P m₀ (Served β e₀ X M m β' req) (Tracked β e₀ X M m) :=
  t.conseq (fun _ start => start) (fun _ _ done => done.mono le) fun _ failed => failed.mono le

/-- A handler that leaves the book as it was, with a plan whose calls ask nothing and move no key. -/
theorem Moved.served {s : Env × Kme} (moved : Moved β e₀ X M n β' s) {req : KmeRequest} {p : Plan}
    (free : ∀ a ∈ p.actions, ∀ c, a.call? = some c → (∀ β : Book, c.Asks β) ∧ ∀ i, ¬ c.Movable i)
    (replies : Replies β' β' req p.reply) : Served β e₀ X M n β' req p s :=
  ⟨β', moved, Book.planned_of_free (fun a member c made => (free a member c made).1) β', replies,
    fun a member i ⟨c, made, movable⟩ => absurd movable ((free a member c made).2 i)⟩

/-- The session of a pair of applications is the book's. -/
theorem sessionByApps_moved (src dst : AppId) :
    Triple (Moved β e₀ X M n β') (sessionByApps src dst)
      (fun r s => Moved β e₀ X M n β' s ∧ β'.sessions r.ksid = some r) (Tracked β e₀ X M n) := by
  unfold sessionByApps
  refine Triple.bind triple_current fun k => ?_
  split
  · rename_i r found
    refine Triple.pure _ fun s start => ⟨start.1, ?_⟩
    rw [← start.2] at found
    exact start.1.booked.byPair found
  · exact triple_fail _ fun _ start => start.1.tracked

/-! ### Requests that move no key -/

theorem openSession_moved (src dst : AppId) (qos : Qos) (master : Bool) :
    Triple (Moved β e₀ X M n β') (openSession src dst qos master)
      (Served β e₀ X M n β' (.openSession src dst qos master)) (Tracked β e₀ X M n) := by
  unfold openSession
  refine Triple.bind current_moved fun k => Triple.pure _ fun s start => start.1.served ?_ trivial
  intro a member c made
  rw [List.mem_singleton.mp member] at made
  cases made
  exact ⟨fun _ => trivial, fun _ still => still⟩

theorem status_moved (src dst : AppId) :
    Triple (Moved β e₀ X M n β') (status src dst) (Served β e₀ X M n β' (.status src dst)) (Tracked β e₀ X M n) := by
  unfold status
  refine Triple.bind (sessionByApps_moved src dst) fun r => ?_
  refine Triple.bind ((triple_engine_kept (Engine.keeps_sessionKeyCount r.ksid)
    (Engine.carrying_of_sameKeys (Engine.keeps_sameKeys_sessionKeyCount r.ksid)) (Engine.stays_sessionKeyCount r.ksid)).conseq
      (fun _ start => start.1) (fun _ _ done => done) fun _ failed => failed) fun _ => ?_
  refine Triple.bind current_moved fun _ => Triple.pure _ fun s start => start.1.served ?_ trivial
  intro a member
  cases member

theorem syncKeys_moved (ℓ : LinkId) (rows : List KeyRow) (consumed : List Span) (ok : ∀ row ∈ rows, β'.RowOk X row) :
    Triple (Moved β e₀ X M n β') (do engine (Engine.applySync ℓ rows consumed); pure Plan.ack)
      (Served β e₀ X M n β' (.syncKeys ℓ rows consumed)) (Tracked β e₀ X M n) := by
  refine Triple.bind (triple_engine_moved (Q := fun _ _ => True) ((Engine.spells_applySync ℓ ok consumed).conseq
    (fun _ start => start) (fun _ _ done => ⟨done, trivial⟩) fun _ failed => failed)
    (Engine.stays_applySync ℓ rows consumed)) fun _ => Triple.pure _ fun s done => done.1.served ?_ trivial
  intro a member
  cases member

/-- Taking up a session the book has keeps the node's index the book's. -/
theorem assignSession_moved (r : SessionRecord) (filed : β'.sessions r.ksid = some r) :
    Triple (Moved β e₀ X M n β') (assignSession r) (Served β e₀ X M n β' (.assignSession r)) (Tracked β e₀ X M n) := by
  unfold assignSession
  refine Triple.bind current_moved fun k => ?_
  refine Triple.bind ((lift_moved _).conseq (fun _ start => start.1) (fun _ _ done => done.1) fun _ failed => failed)
    fun _ => ?_
  refine Triple.bind (triple_engine_kept (Engine.keeps_records (Storage.keeps_storeSession r))
    (Engine.carrying_records (Storage.carrying_of_write _ _ fun _ carries => ⟨carries.rows, carries.locals⟩))
    Engine.stays_records) fun _ => ?_
  refine Triple.bind ((reindex_moved (A := fun _ => True) _ fun s moved _ x r' found => ?_).conseq
    (fun _ start => ⟨start, trivial⟩) (fun _ _ done => done) fun _ failed => failed) fun _ =>
    Triple.pure _ fun s moved => moved.served (fun _ member => by cases member) trivial
  rw [SessionIndex.get?_insert] at found
  split at found
  · rename_i own
    cases found
    exact ⟨own, own ▸ filed⟩
  · exact moved.booked.index x r' found

/-- Ending a session keeps the node's index the book's, and its plan only passes the close on. -/
theorem closeSession_moved (ksid : Ksid) (origin : Option KmeId) :
    Triple (Moved β e₀ X M n β') (closeSession ksid origin) (Served β e₀ X M n β' (.closeSession ksid origin))
      (Tracked β e₀ X M n) := by
  unfold closeSession
  refine Triple.bind triple_current fun k => ?_
  dsimp only
  split
  · refine Triple.bind (reindex_moved _ fun s moved same x r' found => ?_) fun _ => ?_
    · rw [SessionIndex.get?_after_remove, ← same] at found
      split at found
      · cases found
      · exact moved.booked.index x r' found
    refine Triple.bind (triple_engine_kept (Engine.keeps_records (Storage.keeps_deleteSession ksid))
      (Engine.carrying_records (Storage.carrying_of_write _ _ fun _ carries => ⟨carries.rows, carries.locals⟩))
      Engine.stays_records) fun _ => ?_
    refine Triple.bind (triple_engine_kept (Engine.keeps_purgeSession ksid) (Engine.carrying_purgeSession ksid)
      (Engine.stays_purgeSession ksid)) fun _ => Triple.pure _ fun s moved => moved.served ?_ trivial
    -- the plan tells the controller and the neighbours, neither of which asks anything
    intro a member c made
    rcases List.mem_append.mp member with toController | toNeighbours
    · split at toController
      · rw [List.mem_singleton.mp toController] at made
        cases made
        exact ⟨fun _ => trivial, fun _ still => still⟩
      · cases toController
    · split at toNeighbours
      · obtain ⟨_, _, rfl⟩ := List.mem_map.mp toNeighbours
        cases made
        exact ⟨fun _ => trivial, fun _ still => still⟩
      · cases toNeighbours
  · exact triple_fail _ fun _ start => start.1.tracked

/-- Dropping clear keys moves nothing in the book. -/
theorem discardKeys_moved : ∀ keys : List (Ksid × KeyId),
    Triple (Moved β e₀ X M n β') (discardKeys keys) (fun _ => Moved β e₀ X M n β') (Tracked β e₀ X M n)
  | [] => Triple.pure () fun _ start => start
  | (x, i) :: rest => by
    unfold discardKeys
    refine Triple.bind (triple_engine_kept (Keeps.attempt Engine.kept_chains (Engine.keeps_discard x [i]))
      (Keeps.attempt Engine.carrying_chains (Engine.carrying_discard x [i]))
      (Keeps.attempt Engine.stays_chains (Engine.stays_discard x [i]))) fun _ => ?_
    exact discardKeys_moved rest

/-! ### Generating keys -/

theorem checkGeneration_ok {sizeBits count : Nat} (ok : Engine.checkGeneration sizeBits count = .ok ()) :
    count ≤ Engine.batchLimit := by
  unfold Engine.checkGeneration at ok
  split at ok
  · cases ok
  · split at ok
    · cases ok
    · omega

section Generation

variable {s : Env × Kme} {x : Ksid} {r : SessionRecord} {handed kept : Stage} {m : Nat}

/-- The node after `m` more draws, with room for them. -/
theorem Moved.drawn (moved : Moved β e₀ X M n β' s) {e : Env} (drew : Env.Drew m s.1 e)
    (room : e₀.counter + e₀.step * (n + m) < Ident.space) : Moved β e₀ X M (n + m) β' (e, s.2) :=
  ⟨moved.id, moved.booked, moved.below.drew drew (moved.drew.room room).1, moved.confined, moved.moves,
    moved.drew.trans drew⟩

/-- The node after a generation of `count` keys of session `x`, with the batch filed in the book:
the keys handed out at stage `handed`, those kept in the clear at stage `kept`. -/
theorem Moved.issue (moved : Moved β e₀ X M n β' s) {b : Batch} {st : Storage} {count : Nat}
    (session : β'.sessions x = some r)
    (stores : (r.kmeDst = X → r.replays = some false → kept = .ready) ∧ (r.kmeSrc = X → r.Relayed → kept = .parked))
    (movable : handed = .unborn ∧ kept = .unborn ∨ ∀ i, M i)
    (room : e₀.counter + e₀.step * (n + count) < Ident.space) (pos : 0 < e₀.step)
    (ids : b.keys.map (·.keyId) = s.1.drawn count)
    (carries : st.data.Carries (β'.RowOk X)
      (fun l => β'.LocalOk X l ∨ l ∈ b.stored.map fun key => ⟨x, key.keyId, key.material, s.1.wallSecs⟩))
    (spelt : st.Spelt β'.bytes) :
    Moved β e₀ X M (n + count) (β'.file x b.keys (b.stageOf handed kept)) (s.1.after count, { s.2 with storage := st }) ∧
      β'.Unknown b.keys ∧ (b.keys.map (·.keyId)).Nodup := by
  obtain ⟨e, k⟩ := s
  obtain ⟨room', step⟩ := moved.drew.room room
  have pos' : 0 < e.step := step ▸ pos
  -- the ids drawn lie past the counter, beyond which the book knows nothing
  have past := Env.drawn_past pos' room'
  have unknown : β'.Unknown b.keys := fun i member =>
    let ⟨keys, stage, _⟩ := moved.below i (past i (ids ▸ member)).1
    ⟨keys, stage⟩
  have distinct : (b.keys.map (·.keyId)).Nodup := by
    rw [ids]
    exact (Env.drawn_sorted pos' room').imp fun lt same => by rw [same] at lt; exact lt_irrefl _ lt
  have id : k.id = X := moved.id
  subst id
  refine ⟨⟨rfl, ⟨⟨spelt.2, ?_⟩, spelt.1, fun y r' found => moved.booked.index y r' found⟩,
    (moved.below.drew (Env.Drew.exact _ _) room').file fun i member => (past i (ids ▸ member)).2,
    moved.confined.trans (Book.file_confined k.id unknown), fun i changed => ?_, moved.drew.trans (Env.Drew.exact _ _)⟩,
    unknown, distinct⟩
  · exact carries.mono (fun row _ ok => ok.file unknown) fun l _ ok =>
      ok.elim (·.file unknown) (Book.LocalOk.batch_kept distinct session stores l)
  · by_cases same : β'.stage i = β.stage i
    · -- only a fresh key can have moved, and only when it is filed past unborn
      have fresh : i ∈ b.keys.map (·.keyId) := by
        by_contra old
        exact changed (by rw [Book.file_stage, if_neg old, same])
      rcases movable with ⟨unborn, unborn'⟩ | all
      · refine absurd ?_ changed
        rw [Book.file_stage, if_pos fresh, ← same, (unknown i fresh).2, Batch.stageOf]
        split <;> assumption
      · exact all i
    · exact moved.moves i same

/-- A generation of keys of a session the book has: its keys are new to the book, distinct, hold
the book's bytes of their spans, and are filed at the stages given; at most a batch is drawn. -/
theorem generate_moves (ksid : Ksid) (ℓ : LinkId) (sizeBits count keep : Nat) (handed kept : Stage)
    (session : β'.sessions ksid = some r) (fits : keep ≤ count)
    (stores : (r.kmeDst = X → r.replays = some false → kept = .ready) ∧ (r.kmeSrc = X → r.Relayed → kept = .parked))
    (movable : handed = .unborn ∧ kept = .unborn ∨ ∀ i, M i)
    (room : e₀.counter + e₀.step * (n + Engine.batchLimit) < Ident.space) (pos : 0 < e₀.step) :
    Triple (Moved β e₀ X M n β') (generate ksid ℓ sizeBits count keep)
      (fun b s => Moved β e₀ X M (n + Engine.batchLimit) (β'.file ksid b.keys (b.stageOf handed kept)) s ∧
        β'.Unknown b.keys ∧ (b.keys.map (·.keyId)).Nodup ∧ ∀ key ∈ b.keys, key.material = spell β'.bytes key.spans)
      (Tracked β e₀ X M (n + Engine.batchLimit)) := by
  unfold generate
  refine Triple.bind (Triple.ofExcept (Q := fun _ s => Moved β e₀ X M n β' s ∧ count ≤ Engine.batchLimit) _
    fun s moved => ⟨(moved.mono (Nat.le_add_right n _) fun _ held => held).tracked,
      fun _ ok => ⟨moved, checkGeneration_ok ok⟩⟩) fun _ => ?_
  refine Triple.bind triple_current fun k => ?_
  rintro ⟨e, k'⟩ ⟨⟨moved, bounded⟩, same⟩
  subst same
  have within : n + count ≤ n + Engine.batchLimit := Nat.add_le_add_left bounded n
  have room' : e₀.counter + e₀.step * (n + count) < Ident.space :=
    lt_of_le_of_lt (Nat.add_le_add_left (Nat.mul_le_mul_left _ within) _) room
  rcases Engine.generate_spells k'.pool ksid ℓ sizeBits count keep e moved.carries moved.booked.spelt fits with
    ⟨f, e', st', failed, carries, spelt, drew⟩ | ⟨b, st', made, carries, spelt, ids, materials⟩
  · rw [run_engine_error failed]
    exact (((moved.restore (t := (e, st')) carries spelt rfl).drawn drew room').mono within fun _ held => held).tracked
  · rw [run_engine_ok made]
    obtain ⟨moved', unknown, distinct⟩ := moved.issue session stores movable room' pos ids carries spelt
    exact ⟨moved'.mono within fun _ held => held, unknown, distinct, materials⟩

/-- The keys a request still misses, generated and filed, or none when none is missing. -/
theorem topUp_moves (ksid : Ksid) (ℓ : LinkId) (missing sizeBits : Nat) (handed kept : Stage)
    (session : β'.sessions ksid = some r)
    (stores : (r.kmeDst = X → r.replays = some false → kept = .ready) ∧ (r.kmeSrc = X → r.Relayed → kept = .parked))
    (movable : handed = .unborn ∧ kept = .unborn ∨ ∀ i, M i)
    (room : e₀.counter + e₀.step * (n + Engine.batchLimit) < Ident.space) (pos : 0 < e₀.step) :
    Triple (Moved β e₀ X M n β') (topUp ksid ℓ missing sizeBits)
      (fun batch s => ∃ β'', Moved β e₀ X M (n + Engine.batchLimit) β'' s ∧ (batch = none → β'' = β') ∧
        ∀ b, batch = some b → β'' = β'.file ksid b.keys (b.stageOf handed kept) ∧ β'.Unknown b.keys ∧
          (b.keys.map (·.keyId)).Nodup ∧ ∀ key ∈ b.keys, key.material = spell β'.bytes key.spans)
      (Tracked β e₀ X M (n + Engine.batchLimit)) := by
  unfold topUp
  split
  · exact Triple.pure none fun _ moved =>
      ⟨β', moved.mono (Nat.le_add_right n _) fun _ held => held, fun _ => rfl, fun _ none => (by cases none)⟩
  · refine Triple.bind triple_current fun k => ?_
    dsimp only
    split
    · exact Triple.stop _
    · refine Triple.bind ((generate_moves ksid ℓ sizeBits _ _ handed kept session (Nat.le_add_left _ _) stores movable
        room pos).conseq (fun _ start => start.1) (fun _ _ done => done) fun _ failed => failed) fun b => ?_
      exact Triple.pure (some b) fun _ ⟨moved, unknown, distinct, materials⟩ =>
        ⟨_, moved, fun none => (by cases none), fun _ same => by cases same; exact ⟨rfl, unknown, distinct, materials⟩⟩

end Generation

/-! ### Kept keys -/

section Kept

variable {s : Env × Kme} {r : SessionRecord}

theorem linkTo_moved (c : KmeId) :
    Triple (Moved β e₀ X M n β') (linkTo c) (fun _ => Moved β e₀ X M n β') (Tracked β e₀ X M n) := by
  unfold linkTo
  refine Triple.bind triple_current fun k => ?_
  dsimp only
  split
  · exact Triple.pure _ fun _ start => start.1
  · exact triple_fail _ fun _ start => start.1.tracked

/-- A parked key of a relayed session taken out of the clear at its master moves on to relayed. -/
theorem Moved.unpark (moved : Moved β e₀ X M n β' s) (all : ∀ i, M i) {l : LocalKey} (ok : β'.LocalOk X l)
    (parks : β'.Parks X l)
    (carries : s.2.storage.data.Carries (β'.RowOk X) fun l' => β'.LocalOk X l' ∧ (l'.ksid, l'.keyId) ≠ (l.ksid, l.keyId)) :
    Moved β e₀ X M n (β'.move [l.keyId] .relayed) s := by
  have parked : β'.stage l.keyId = .parked := ok.2.2.2 parks
  have ahead : ∀ i ∈ [l.keyId], (β'.stage i).rank ≤ Stage.relayed.rank := fun i member => by
    rw [List.mem_singleton.mp member, parked]
    decide
  -- a parked key is held to its stage by the session's master alone
  have free : ∀ i ∈ [l.keyId], ∀ Y, Y ≠ X → ¬ β'.Claims Y i := by
    rintro i member Y other ⟨s', m', r', key, session', holds⟩
    rw [List.mem_singleton.mp member] at key holds
    rw [ok.1] at key
    cases key
    obtain ⟨r₀, session₀, src, -⟩ := parks
    rw [session₀] at session'
    cases session'
    rcases holds with ⟨-, ready⟩ | ⟨src', -, -⟩
    · rw [parked] at ready
      cases ready
    · exact other (src'.symm.trans src)
  refine moved.advance (Book.move_confined X ahead free) (fun i _ => all i)
    (moved.below.move fun i member => ⟨_, (List.mem_singleton.mp member) ▸ ok.1⟩)
    ((carries.mono (fun row _ ok' => ⟨ok', fun member => ok'.idle_of_stage ?_⟩) fun l' _ ok' => ⟨ok'.1, fun member => ?_⟩).settle
      (Book.move_grows ahead) (Book.move_moves _ _))
  · rw [List.mem_singleton.mp member, parked]
    decide
  · -- the clear key taken was the only one of its id
    have same := List.mem_singleton.mp member
    have own : l'.ksid = l.ksid := ok'.1.ksid (by rw [same]; exact ok.1)
    exact absurd (by rw [own, same]) ok'.2

/-- Kept keys taken for a relayed session's master: each was parked and is moved on to relayed,
each is taken once, and each has the book's bytes. -/
theorem takeKept_relays (ksid : Ksid) (sizeBits : Nat) (all : ∀ i, M i) (src : r.kmeSrc = X) (relayed : r.Relayed)
    (count : Nat) : ∀ (keys : List (KeyId × Material)) (β₁ : Book), β₁.sessions ksid = some r →
      (keys.map (·.1)).Nodup → (∀ key ∈ keys, β₁.keys key.1 = some (ksid, key.2) ∧ β₁.stage key.1 = .relayed) →
      Triple (Moved β e₀ X M n β₁) (takeKept ksid sizeBits count keys)
        (fun keys s => ∃ β₂, Moved β e₀ X M n β₂ s ∧ β₂.sessions ksid = some r ∧ (keys.map (·.1)).Nodup ∧
          ∀ key ∈ keys, β₂.keys key.1 = some (ksid, key.2) ∧ β₂.stage key.1 = .relayed)
        (Tracked β e₀ X M n) := by
  induction count with
  | zero =>
    intro keys β₁ session distinct onward
    exact Triple.pure keys fun _ moved => ⟨β₁, moved, session, distinct, onward⟩
  | succ count ih =>
    intro keys β₁ session distinct onward
    rw [takeKept]
    refine Triple.bind (triple_engine_moved (Engine.spells_takePrefetched ksid sizeBits)
      (Engine.stays_takePrefetched ksid sizeBits)) fun taken => ?_
    cases taken with
    | none => exact Triple.pure keys fun _ done => ⟨β₁, done.1, session, distinct, onward⟩
    | some l =>
      rintro s ⟨moved, took⟩
      obtain ⟨own, ok, carries⟩ := took l rfl
      have parks : β₁.Parks X l := ⟨r, own ▸ session, src, relayed⟩
      have parked : β₁.stage l.keyId = .parked := ok.2.2.2 parks
      have filed : β₁.keys l.keyId = some (ksid, l.material) := own ▸ ok.1
      refine ih _ (β₁.move [l.keyId] .relayed) session ?_ (fun key member => ?_) s (moved.unpark all ok parks carries)
      · -- the key taken was parked, so it is none of the relayed keys taken before
        rw [List.map_append, List.map_singleton, List.nodup_append_comm, List.singleton_append, List.nodup_cons]
        refine ⟨fun member => ?_, distinct⟩
        obtain ⟨key, listed, same⟩ := List.mem_map.mp member
        have onward' := (onward key listed).2
        rw [same, parked] at onward'
        cases onward'
      · rw [Book.move_stage]
        rcases List.mem_append.mp member with old | new
        · refine ⟨(onward key old).1, ?_⟩
          split
          · rfl
          · exact (onward key old).2
        · rw [List.mem_singleton.mp new]
          exact ⟨filed, if_pos (List.mem_singleton_self _)⟩

/-- Kept keys taken for a session's master have the book's bytes; the book stays. -/
theorem takeKept_hands (ksid : Ksid) (sizeBits : Nat) (count : Nat) : ∀ (keys : List (KeyId × Material)),
    (∀ key ∈ keys, β'.keys key.1 = some (ksid, key.2)) →
    Triple (Moved β e₀ X M n β') (takeKept ksid sizeBits count keys)
      (fun keys s => Moved β e₀ X M n β' s ∧ ∀ key ∈ keys, β'.keys key.1 = some (ksid, key.2)) (Tracked β e₀ X M n) := by
  induction count with
  | zero => exact fun keys filed => Triple.pure keys fun _ moved => ⟨moved, filed⟩
  | succ count ih =>
    intro keys filed
    rw [takeKept]
    refine Triple.bind (triple_engine_moved (Engine.spells_takePrefetched ksid sizeBits)
      (Engine.stays_takePrefetched ksid sizeBits)) fun taken => ?_
    cases taken with
    | none => exact Triple.pure keys fun _ done => ⟨done.1, filed⟩
    | some l =>
      rintro s ⟨moved, took⟩
      obtain ⟨own, ok, -⟩ := took l rfl
      refine ih _ (fun key member => ?_) s moved
      rcases List.mem_append.mp member with old | new
      · exact filed key old
      · rw [List.mem_singleton.mp new, ← own]
        exact ok.1

theorem prefetched_relays (ksid : Ksid) (number sizeBits : Nat) (all : ∀ i, M i) (session : β'.sessions ksid = some r)
    (src : r.kmeSrc = X) (relayed : r.Relayed) :
    Triple (Moved β e₀ X M n β') (prefetched ksid number sizeBits)
      (fun keys s => ∃ β₂, Moved β e₀ X M n β₂ s ∧ β₂.sessions ksid = some r ∧ (keys.map (·.1)).Nodup ∧
        ∀ key ∈ keys, β₂.keys key.1 = some (ksid, key.2) ∧ β₂.stage key.1 = .relayed)
      (Tracked β e₀ X M n) := by
  unfold prefetched
  refine Triple.bind current_moved fun k => ?_
  split
  · exact Triple.pure [] fun _ start => ⟨β', start.1, session, List.nodup_nil, fun _ member => (by cases member)⟩
  · exact (takeKept_relays ksid sizeBits all src relayed number [] β' session List.nodup_nil
      fun _ member => (by cases member)).conseq (fun _ start => start.1) (fun _ _ done => done) fun _ failed => failed

theorem prefetched_hands (ksid : Ksid) (number sizeBits : Nat) :
    Triple (Moved β e₀ X M n β') (prefetched ksid number sizeBits)
      (fun keys s => Moved β e₀ X M n β' s ∧ ∀ key ∈ keys, β'.keys key.1 = some (ksid, key.2)) (Tracked β e₀ X M n) := by
  unfold prefetched
  refine Triple.bind current_moved fun k => ?_
  split
  · exact Triple.pure [] fun _ start => ⟨start.1, fun _ member => (by cases member)⟩
  · exact (takeKept_hands ksid sizeBits number [] fun _ member => (by cases member)).conseq (fun _ start => start.1)
      (fun _ _ done => done) fun _ failed => failed

end Kept

/-! ### Keys for the master -/

theorem undoBatch_moved (ksid : Ksid) (b : Batch) :
    Triple (Moved β e₀ X M n β') (engine (EStateM.attempt (Engine.undoBatch ksid b))) (fun _ => Moved β e₀ X M n β')
      (Tracked β e₀ X M n) :=
  (triple_engine_moved (Q := fun _ _ => True) ((Spec.attempt (Engine.spells_undoBatch ksid b)).conseq
    (fun _ start => start) (fun _ _ done => ⟨done, trivial⟩) fun _ failed => failed)
    (Keeps.attempt Engine.stays_chains (Engine.stays_undoBatch ksid b))).conseq
    (fun _ start => start) (fun _ _ done => done.1) fun _ failed => failed

/-- The keys a relayed session's master hands out, the kept ones it took and then those of the
batch it generated, are filed with their bytes, relayed, and distinct. -/
theorem handed_relayed {x : Ksid} {keys : List (KeyId × Material)} {appBatch : Option Batch} {β₂ β₃ : Book}
    (distinct : (keys.map (·.1)).Nodup)
    (onward : ∀ key ∈ keys, β₂.keys key.1 = some (x, key.2) ∧ β₂.stage key.1 = .relayed)
    (unbatched : appBatch = none → β₃ = β₂)
    (batched : ∀ b, appBatch = some b → β₃ = β₂.file x b.keys (b.stageOf .relayed .parked) ∧ β₂.Unknown b.keys ∧
      (b.keys.map (·.keyId)).Nodup) :
    ((keys ++ (appBatch.map handedOut).getD []).map (·.1)).Nodup ∧
      ∀ key ∈ keys ++ (appBatch.map handedOut).getD [], β₃.keys key.1 = some (x, key.2) ∧ β₃.stage key.1 = .relayed := by
  cases appBatch with
  | none =>
    rw [unbatched rfl, show (Option.map handedOut none).getD [] = [] from rfl, List.append_nil]
    exact ⟨distinct, onward⟩
  | some b =>
    obtain ⟨rfl, unknown, fresh⟩ := batched b rfl
    have handed : (handedOut b).map (·.1) = b.issued.map (·.keyId) := by
      rw [handedOut, List.map_map]
      rfl
    have issued : (b.issued.map (·.keyId)).Nodup := by
      rw [Batch.keys, List.map_append, List.nodup_append] at fresh
      exact fresh.1
    refine ⟨?_, fun key member => ?_⟩
    · -- a kept key taken was known before the batch, whose keys were not
      rw [List.map_append]
      refine List.nodup_append.mpr ⟨distinct, handed ▸ issued, fun i old j new same => ?_⟩
      obtain ⟨key, listed, rfl⟩ := List.mem_map.mp old
      rw [show (Option.map handedOut (some b)).getD [] = handedOut b from rfl, handed] at new
      obtain ⟨k, member, rfl⟩ := List.mem_map.mp new
      have gone := (unknown k.keyId (List.mem_map_of_mem (List.mem_append_left _ member))).1
      rw [← same, (onward key listed).1] at gone
      cases gone
    · rcases List.mem_append.mp member with old | new
      · obtain ⟨filed, stage⟩ := Book.file_known (g := b.stageOf .relayed .parked) (x := x) (onward key old).1 unknown
        exact ⟨filed, stage.trans (onward key old).2⟩
      · obtain ⟨k, listed, rfl⟩ := List.mem_map.mp (show key ∈ handedOut b from new)
        exact Book.file_handed fresh listed

/-- Keys for a relayed session at its master: the kept keys it takes and the keys it generates
are relayed, each masked with a fresh one-time key whose rows the next hop stores. -/
theorem relayFirst_moves (r : SessionRecord) (next : KmeId) (number sizeBits : Nat) (all : ∀ i, M i)
    (session : β'.sessions r.ksid = some r) (src : r.kmeSrc = X) (placed : r.role X = .ok (.first next))
    (room : e₀.counter + e₀.step * (n + Engine.batchLimit + Engine.batchLimit) < Ident.space) (pos : 0 < e₀.step)
    {a b : AppId} {size : Option Nat} :
    Triple (Moved β e₀ X M n β') (relayFirst r next number sizeBits)
      (Served β e₀ X M (n + Engine.batchLimit + Engine.batchLimit) β' (.encKeys a b number size))
      (Tracked β e₀ X M (n + Engine.batchLimit + Engine.batchLimit)) := by
  have relayed : r.Relayed := ⟨next, src ▸ placed⟩
  have idle : r.replays ≠ some true := SessionRecord.replays_of_relayed placed fun _ first => (by cases first)
  -- the master of a relayed session keeps its kept keys parked and hands none out itself
  have stores : (r.kmeDst = X → r.replays = some false → Stage.parked = .ready) ∧
      (r.kmeSrc = X → r.Relayed → Stage.parked = .parked) :=
    ⟨fun dst replays => absurd replays (by simp [SessionRecord.replays, dst, placed]), fun _ _ => rfl⟩
  have le₁ : n ≤ n + Engine.batchLimit + Engine.batchLimit := by omega
  have le₂ : n + Engine.batchLimit ≤ n + Engine.batchLimit + Engine.batchLimit := by omega
  have room₁ : e₀.counter + e₀.step * (n + Engine.batchLimit) < Ident.space :=
    lt_of_le_of_lt (Nat.add_le_add_left (Nat.mul_le_mul_left _ le₂) _) room
  unfold relayFirst
  refine Triple.bind ((linkTo_moved next).conseq (fun _ start => start) (fun _ _ done => done)
    fun _ failed => failed.mono le₁) fun ℓ => ?_
  refine Triple.bind ((prefetched_relays r.ksid number sizeBits all session src relayed).conseq (fun _ start => start)
    (fun _ _ done => done) fun _ failed => failed.mono le₁) fun keys => ?_
  refine Triple.exists_pre fun β₂ => Triple.assume fun kept => ?_
  obtain ⟨session₂, distinct₂, onward₂⟩ := kept
  refine Triple.bind ((topUp_moves r.ksid ℓ _ sizeBits .relayed .parked session₂ stores (.inr all) room₁ pos).conseq
    (fun _ start => start) (fun _ _ done => done) fun _ failed => failed.mono le₂) fun appBatch => ?_
  refine Triple.exists_pre fun β₃ => Triple.assume fun filed => ?_
  obtain ⟨unbatched, batched⟩ := filed
  have session₃ : β₃.sessions r.ksid = some r := by
    cases appBatch with
    | none => rw [unbatched rfl]; exact session₂
    | some b' => rw [(batched b' rfl).1]; exact session₂
  obtain ⟨distinct₃, onward₃⟩ := handed_relayed distinct₂ onward₂ unbatched fun b' made =>
    let ⟨filed, unknown, fresh, _⟩ := batched b' made
    ⟨filed, unknown, fresh⟩
  refine Triple.bind (Triple.tryCatch (generate_moves r.ksid ℓ sizeBits number 0 .unborn .parked session₃
    (Nat.zero_le _) stores (.inr all) room pos) ?undo (fun a => Triple.stop a)) fun otks => Triple.assume fun made => ?_
  case undo =>
    -- when the one-time keys cannot be cut, the application keys go back
    intro f
    refine Triple.exists_pre fun β₅ => ?_
    cases appBatch with
    | none => exact Triple.throw _ fun _ moved => moved.tracked
    | some b' => exact Triple.bind (undoBatch_moved r.ksid b') fun _ => Triple.throw _ fun _ moved => moved.tracked
  obtain ⟨unknown₄, distinct₄, spelt₄⟩ := made
  dsimp only
  refine Triple.bind triple_wallSecs fun now => ?_
  refine Triple.bind (lift_moved _) fun forwards => Triple.assume fun mapped => ?_
  refine Triple.pure _ fun s moved => ⟨_, moved, ⟨fun c call => ?_, fun β₅ moves => ?_⟩, fun c member => ?_,
    fun _ _ i _ => all i⟩
  · -- the next hop stores the one-time keys' rows, which it never replays
    cases call
    exact Book.RowOk.batch_rows distinct₄ spelt₄ session₃ fun _ replays => absurd replays idle
  · -- the rows stored, each relay carries a key on its way, masked with a one-time key
    have same : ∀ i, β₅.stage i = (β₃.file r.ksid otks.keys (otks.stageOf .unborn .parked)).stage i := by
      intro i
      refine moves.2 i ?_
      rintro ⟨c, call, movable⟩
      cases call
      exact movable
    refine @Book.planned_forwards next r.ksid sizeBits _ _ ((Except.mapM_forall₂ mapped).imp fun p y relay => ?_) β₅
      (nodup_map_zip distinct₃) fun p member => ?_
    · obtain ⟨cipher, masked, rest⟩ := Except.bind_eq_ok relay
      cases rest
      exact ⟨cipher, masked, rfl⟩
    · obtain ⟨inKeys, inPads⟩ := List.of_mem_zip member
      obtain ⟨key, stage⟩ := onward₃ _ inKeys
      obtain ⟨key₄, stage₄⟩ := Book.file_known (g := otks.stageOf .unborn .parked) (x := r.ksid) key unknown₄
      exact ⟨(same _).trans (stage₄.trans stage), moves.1.keys _ _ key₄,
        moves.1.keys _ _ (Book.file_keys_fresh distinct₄ (List.mem_append_left _ inPads))⟩
  · -- every key handed to the master is filed with its bytes
    obtain ⟨m, listed, text⟩ := mem_containers member
    obtain ⟨key, -⟩ := onward₃ _ listed
    exact ⟨r.ksid, m, (Book.file_known key unknown₄).1, text⟩

/-! ### Relayed keys -/

/-- Unmasking a relayed key takes the row of its one-time key, whose bytes are the book's. -/
theorem reconstruct_moved (ksid : Ksid) (otkId : KeyId) {mo : Material} (pad : β'.keys otkId = some (ksid, mo)) :
    Triple (Moved β e₀ X M n β') (engine (Engine.reconstruct ksid otkId)) (fun m s => Moved β e₀ X M n β' s ∧ m = mo)
      (Tracked β e₀ X M n) := by
  refine triple_engine_moved (Q := fun m _ => m = mo) ((Engine.spells_reconstruct ksid otkId).conseq (fun _ start => start)
    (fun m _ done => ⟨done.1, ?_⟩) fun _ failed => failed) (Engine.stays_reconstruct ksid otkId)
  obtain ⟨row, slot, ok, read⟩ := done.2
  obtain ⟨own, same⟩ := Prod.mk.inj slot
  have filed := ok.1
  rw [same, own, pad] at filed
  cases filed
  exact read

/-- A relayed key moved on to waiting: no node holds a relayed key to its stage, and no record of
it is one a node would hand out. -/
theorem Moved.land {s : Env × Kme} (moved : Moved β e₀ X M n β' s) {k : KeyId} (movable : M k)
    (relayed : β'.stage k = .relayed) {v : Ksid × Material} (known : β'.keys k = some v) :
    Moved β e₀ X M n (β'.move [k] .ready) s := by
  have ahead : ∀ i ∈ [k], (β'.stage i).rank ≤ Stage.ready.rank := fun i member => by
    rw [List.mem_singleton.mp member, relayed]
    decide
  have free : ∀ i ∈ [k], ∀ Y, Y ≠ X → ¬ β'.Claims Y i := by
    rintro i member Y - ⟨s', m', r', -, -, holds⟩
    rw [List.mem_singleton.mp member, relayed] at holds
    rcases holds with ⟨-, ready⟩ | ⟨-, -, parked⟩
    · cases ready
    · cases parked
  have unclaimed : ∀ i ∈ [k], β'.stage i ≠ .ready ∧ β'.stage i ≠ .parked := fun i member => by
    rw [List.mem_singleton.mp member, relayed]
    decide
  refine moved.advance (Book.move_confined X ahead free) (fun i changed => ?_)
    (moved.below.move fun i member => ⟨v, (List.mem_singleton.mp member) ▸ known⟩)
    ((moved.carries.mono (fun row _ ok => ⟨ok, fun member => ok.idle_of_stage (unclaimed _ member).1⟩)
      fun l _ ok => ⟨ok, fun member => ok.idle_of_stage (unclaimed _ member).1 (unclaimed _ member).2⟩).settle
      (Book.move_grows ahead) (Book.move_moves _ _))
  rw [List.mem_singleton.mp (Book.move_moves _ _ i changed)]
  exact movable

/-- A relayed key passed on: a middle hop masks it again with a fresh one-time key whose rows the
next hop stores, and the last hop keeps it in the clear, waiting for the slave. -/
theorem relayForward_moves (ksid : Ksid) (keyId otkId : KeyId) (cipher : String) (size : Nat) (movable : M keyId)
    (asks : (Call.kme X (.relayForward ksid keyId otkId cipher size)).Asks β')
    (room : e₀.counter + e₀.step * (n + Engine.batchLimit) < Ident.space) (pos : 0 < e₀.step) :
    Triple (Moved β e₀ X M n β') (relayForward ksid keyId otkId cipher size)
      (Served β e₀ X M (n + Engine.batchLimit) β' (.relayForward ksid keyId otkId cipher size))
      (Tracked β e₀ X M (n + Engine.batchLimit)) := by
  obtain ⟨relayed, mk, mo, key, pad, masked⟩ := asks
  have le : n ≤ n + Engine.batchLimit := Nat.le_add_right n _
  unfold relayForward
  refine Triple.bind (widen current_booked le) fun k => Triple.assume fun here => ?_
  obtain ⟨own, booked⟩ := here
  dsimp only
  split
  · rename_i r found
    obtain ⟨filed, session⟩ := booked.index ksid r found
    refine Triple.bind (widen (lift_moved _) le) fun role => Triple.assume fun placed => ?_
    rw [own] at placed
    split
    · -- a middle hop masks the key again with a fresh one-time key for the next hop
      rename_i prev next
      refine Triple.bind (widen (reconstruct_moved ksid otkId pad) le) fun otk => Triple.assume fun read => ?_
      refine Triple.bind (widen (lift_moved _) le) fun key' => Triple.assume fun unmasked => ?_
      have recovered : key' = mk := Relay.unwrap_recovers masked (read ▸ unmasked)
      subst recovered
      have stores : (r.kmeDst = X → r.replays = some false → Stage.unborn = .ready) ∧
          (r.kmeSrc = X → r.Relayed → Stage.unborn = .parked) :=
        ⟨fun dst replays => by simp [SessionRecord.replays, dst, placed] at replays,
          fun src relayed => absurd relayed (SessionRecord.not_relayed src placed fun _ first => (by cases first))⟩
      refine Triple.bind (widen (linkTo_moved next) le) fun ℓ => ?_
      refine Triple.bind (generate_moves ksid ℓ size 1 0 .unborn .unborn session (Nat.zero_le _) stores (.inl ⟨rfl, rfl⟩)
        room pos) fun batch => Triple.assume fun made => ?_
      obtain ⟨unknown, distinct, spelt⟩ := made
      split
      · rename_i fresh first
        have issued : fresh ∈ batch.issued := List.mem_of_head? first
        refine Triple.bind (lift_moved _) fun masked' => Triple.assume fun wrapped => ?_
        refine Triple.bind triple_wallSecs fun now => Triple.pure _ fun s moved => ?_
        obtain ⟨key₂, stage₂⟩ := Book.file_known (g := batch.stageOf .unborn .unborn) (x := ksid) key unknown
        refine ⟨_, moved, ⟨fun c call => ?_, fun β₅ moves => ⟨fun c call => ?_, fun _ _ => trivial⟩⟩, trivial, ?_⟩
        · -- the next hop stores the fresh one-time key's row, which it never replays
          cases call
          exact Book.RowOk.batch_rows distinct spelt session fun _ replays => absurd replays
            (SessionRecord.replays_of_relayed placed fun _ middle => (by cases middle))
        · -- the rows stored, the key is passed on masked with the fresh one-time key
          cases call
          have other : ¬ (Action.callKme next (.syncKeys ℓ (batch.rows ksid true now) batch.consumed) true).Movable keyId := by
            rintro ⟨c, call, movable⟩
            cases call
            exact movable
          exact ⟨(moves.2 keyId other).trans (stage₂.trans relayed), key', fresh.material, moves.1.keys _ _ key₂,
            moves.1.keys _ _ (Book.file_keys_fresh distinct (List.mem_append_left _ issued)), wrapped⟩
        · -- the rows move nothing, and the relay only the key passed on
          rintro a member i ⟨c, made, named⟩
          rcases List.mem_pair.mp member with rfl | rfl <;> cases made
          · exact named.elim
          · exact named ▸ movable
      · exact fail_moved _
    · -- the last hop keeps the key for the slave, where it waits
      rename_i prev
      refine Triple.bind (widen (reconstruct_moved ksid otkId pad) le) fun otk => Triple.assume fun read => ?_
      refine Triple.bind (widen (lift_moved _) le) fun key' => Triple.assume fun unmasked => ?_
      have recovered : key' = mk := Relay.unwrap_recovers masked (read ▸ unmasked)
      subst recovered
      have landed : Triple (Moved β e₀ X M n (β'.move [keyId] .ready)) (engine (Engine.storeLocal ksid [(keyId, key')]))
          (fun _ s => Moved β e₀ X M n (β'.move [keyId] .ready) s ∧ True) (Tracked β e₀ X M n) :=
        triple_engine_moved ((Engine.spells_of_keeps (Engine.keeps_storeLocal ksid _)
          (Engine.carrying_storeLocal fun now k member => ?_)).conseq (fun _ start => start)
          (fun _ _ done => ⟨done, trivial⟩) fun _ failed => failed) (Engine.stays_storeLocal ksid _)
      · refine Triple.bind ((widen landed le).conseq (fun _ moved => moved.land movable relayed key)
          (fun _ _ done => done.1) fun _ failed => failed) fun _ => Triple.pure _ fun s moved =>
          ⟨_, moved.mono le fun _ held => held, trivial, trivial, fun _ member => by cases member⟩
      · -- the key kept is the book's, waiting here, and no relayed session parks keys at its last hop
        rw [List.mem_singleton.mp member]
        refine ⟨key, show (β'.sessions ksid).isSome by simp [session], fun _ => if_pos (List.mem_singleton_self _), fun ⟨r', session', src, relayed'⟩ => ?_⟩
        have found : β'.sessions ksid = some r' := session'
        rw [session] at found
        cases found
        exact absurd relayed' (SessionRecord.not_relayed src placed fun _ first => (by cases first))
    · exact Triple.throw_bind _ fun _ moved => (moved.mono le fun _ held => held).tracked
  · exact triple_fail _ fun _ start => (start.mono le fun _ held => held).tracked

/-- Keys for two applications on one node are kept in the clear, waiting from the start. -/
theorem localKeys_moves (r : SessionRecord) (number sizeBits : Nat) (all : ∀ i, M i)
    (session : β'.sessions r.ksid = some r) (src : r.kmeSrc = X) (placed : r.role X = .ok (.direct none))
    (room : e₀.counter + e₀.step * (n + Engine.batchLimit) < Ident.space) (pos : 0 < e₀.step)
    {a b : AppId} {size : Option Nat} :
    Triple (Moved β e₀ X M n β') (localKeys r number sizeBits)
      (Served β e₀ X M (n + Engine.batchLimit) β' (.encKeys a b number size)) (Tracked β e₀ X M (n + Engine.batchLimit)) := by
  have le : n ≤ n + Engine.batchLimit := Nat.le_add_right n _
  have stores : (r.kmeDst = X → r.replays = some false → Stage.ready = .ready) ∧
      (r.kmeSrc = X → r.Relayed → Stage.ready = .parked) :=
    ⟨fun _ _ => rfl, fun _ relayed => absurd relayed (SessionRecord.not_relayed src placed fun _ first => (by cases first))⟩
  unfold localKeys
  refine Triple.bind (widen current_moved le) fun k => Triple.assume fun _ => ?_
  dsimp only
  refine Triple.bind (widen (triple_engine_kept (Yields.keeps (yields_pickLink _ _ _ _))
    (Engine.carrying_of_sameKeys (keeps_sameKeys_pickLink _ _ _ _)) (stays_pickLink _ _ _ _)) le) fun picked => ?_
  refine Triple.bind (widen (lift_moved picked) le) fun chosen => ?_
  obtain ⟨ℓ, c⟩ := chosen
  refine Triple.bind ((generate_moves r.ksid ℓ sizeBits number number .ready .ready session le_rfl stores (.inr all) room
    pos).conseq (fun _ start => start.1) (fun _ _ done => done) fun _ failed => failed) fun batch => ?_
  refine Triple.pure _ fun s done => ?_
  obtain ⟨moved, unknown, distinct, spelt⟩ := done
  refine ⟨_, moved, ⟨fun c' call => ?_, fun _ _ => trivial⟩, fun c' member => ?_, fun _ _ i _ => all i⟩
  · -- the companion only follows the consumption, with no rows to store
    cases call
    intro row member
    cases member
  · -- the keys handed out are those kept, filed with their bytes
    obtain ⟨m, listed, text⟩ := mem_containers member
    obtain ⟨key, stored, same⟩ := List.mem_map.mp listed
    obtain ⟨id, bytes⟩ := Prod.mk.inj same
    refine ⟨r.ksid, m, ?_, text⟩
    rw [← id, ← bytes]
    exact Book.file_keys_fresh distinct (List.mem_append_right _ stored)

/-- Keys over one link to the slave's node wait there from the start: the kept keys taken and the
keys generated, whose rows the companion stores. -/
theorem directKeys_moves (r : SessionRecord) (companion : KmeId) (number sizeBits : Nat) (all : ∀ i, M i)
    (session : β'.sessions r.ksid = some r) (src : r.kmeSrc = X) (placed : r.role X = .ok (.direct (some companion)))
    (room : e₀.counter + e₀.step * (n + Engine.batchLimit) < Ident.space) (pos : 0 < e₀.step)
    {a b : AppId} {size : Option Nat} :
    Triple (Moved β e₀ X M n β') (directKeys r companion number sizeBits)
      (Served β e₀ X M (n + Engine.batchLimit) β' (.encKeys a b number size)) (Tracked β e₀ X M (n + Engine.batchLimit)) := by
  have le : n ≤ n + Engine.batchLimit := Nat.le_add_right n _
  have stores : (r.kmeDst = X → r.replays = some false → Stage.ready = .ready) ∧
      (r.kmeSrc = X → r.Relayed → Stage.ready = .parked) :=
    ⟨fun _ _ => rfl, fun _ relayed => absurd relayed (SessionRecord.not_relayed src placed fun _ first => (by cases first))⟩
  unfold directKeys
  refine Triple.bind (widen (linkTo_moved companion) le) fun ℓ => ?_
  refine Triple.bind (widen (prefetched_hands r.ksid number sizeBits) le) fun keys => Triple.assume fun filed => ?_
  refine Triple.bind (topUp_moves r.ksid ℓ _ sizeBits .ready .ready session stores (.inr all) room pos) fun topped => ?_
  refine Triple.exists_pre fun β₃ => Triple.assume fun facts => ?_
  obtain ⟨unbatched, batched⟩ := facts
  cases topped with
  | none =>
    refine Triple.pure _ fun s moved => ⟨β₃, moved, trivial, fun c member => ?_, fun _ _ i _ => all i⟩
    obtain ⟨m, listed, text⟩ := mem_containers member
    rw [unbatched rfl]
    exact ⟨r.ksid, m, filed _ listed, text⟩
  | some batch =>
    obtain ⟨rfl, unknown, distinct, spelt⟩ := batched batch rfl
    refine Triple.bind triple_wallSecs fun now => Triple.pure _ fun s moved =>
      ⟨_, moved, ⟨fun c call => ?_, fun _ _ => trivial⟩, fun c member => ?_, fun _ _ i _ => all i⟩
    · -- the companion replays the rows of keys all filed as waiting
      cases call
      exact Book.RowOk.batch_rows distinct spelt session fun _ _ i _ => by simp [Batch.stageOf]
    · obtain ⟨m, listed, text⟩ := mem_containers member
      rcases List.mem_append.mp listed with old | new
      · exact ⟨r.ksid, m, (Book.file_known (filed _ old) unknown).1, text⟩
      · obtain ⟨key, issued, same⟩ := List.mem_map.mp (show _ ∈ handedOut batch from new)
        obtain ⟨id, bytes⟩ := Prod.mk.inj same
        refine ⟨r.ksid, m, ?_, text⟩
        rw [← id, ← bytes]
        exact (Book.file_handed distinct issued).1

/-- Keys handed to the master are issued: each is filed with the bytes handed out. -/
theorem encKeys_moves (src dst : AppId) (number : Nat) (size : Option Nat) (all : ∀ i, M i)
    (room : e₀.counter + e₀.step * (n + Engine.batchLimit + Engine.batchLimit) < Ident.space) (pos : 0 < e₀.step) :
    Triple (Moved β e₀ X M n β') (encKeys src dst number size)
      (Served β e₀ X M (n + Engine.batchLimit + Engine.batchLimit) β' (.encKeys src dst number size))
      (Tracked β e₀ X M (n + Engine.batchLimit + Engine.batchLimit)) := by
  have le₁ : n ≤ n + Engine.batchLimit + Engine.batchLimit := by omega
  have le₂ : n + Engine.batchLimit ≤ n + Engine.batchLimit + Engine.batchLimit := by omega
  have room₁ : e₀.counter + e₀.step * (n + Engine.batchLimit) < Ident.space :=
    lt_of_le_of_lt (Nat.add_le_add_left (Nat.mul_le_mul_left _ le₂) _) room
  unfold encKeys
  refine Triple.bind (widen (sessionByApps_moved src dst) le₁) fun r => Triple.assume fun session => ?_
  refine Triple.bind (widen current_moved le₁) fun k => Triple.assume fun own => ?_
  rw [own]
  split
  · exact widen (fail_moved _) le₁
  rename_i here
  have src_here : r.kmeSrc = X := not_not.mp here
  refine Triple.bind (widen (checkCount_moved _) le₁) fun _ => ?_
  refine Triple.bind (widen (lift_moved _) le₁) fun sizeBits => Triple.assume fun _ => ?_
  refine Triple.bind (widen (lift_moved _) le₁) fun role => Triple.assume fun placed => ?_
  -- the master's role decides how the keys are served
  split
  · exact (localKeys_moves r number sizeBits all session src_here placed room₁ pos).conseq (fun _ start => start)
      (fun _ _ served => served.mono le₂) fun _ failed => failed.mono le₂
  · exact (directKeys_moves r _ number sizeBits all session src_here placed room₁ pos).conseq (fun _ start => start)
      (fun _ _ served => served.mono le₂) fun _ failed => failed.mono le₂
  · exact relayFirst_moves r _ number sizeBits all session src_here placed room pos
  · exact widen (fail_moved _) le₁

section Redeem

variable {s : Env × Kme} {x : Ksid} {r : SessionRecord} {keys : List KeyId}

/-- Handing out the waiting keys `keys` of session `x` at `X` and moving them on to redeemed
leaves the node as the later book has it, when no record left of those keys is one `X` would
hand out or keeps parked. -/
theorem Moved.redeem (moved : Moved β e₀ X M n β' s) (all : ∀ i, M i)
    (waiting : ∀ i ∈ keys, β'.stage i = .ready ∧ ∃ m, β'.keys i = some (x, m))
    (session : β'.sessions x = some r) (dst : r.kmeDst = X)
    (carries : s.2.storage.data.Carries (fun row => β'.RowOk X row ∧ (row.keyId ∈ keys → ¬ β'.Replays X row))
      (fun l => β'.LocalOk X l ∧ (l.keyId ∈ keys → ¬ β'.HandsOut X l ∧ ¬ β'.Parks X l))) :
    Moved β e₀ X M n (β'.move keys .spent) s := by
  have ahead : ∀ i ∈ keys, (β'.stage i).rank ≤ Stage.spent.rank := fun i member => by
    rw [(waiting i member).1]
    decide
  -- a waiting key is held to its stage by the slave's node alone
  have free : ∀ i ∈ keys, ∀ Y, Y ≠ X → ¬ β'.Claims Y i := by
    rintro i member Y other ⟨s', m', r', key, session', holds⟩
    obtain ⟨ready, m, filed⟩ := waiting i member
    rw [filed] at key
    cases key
    rw [session] at session'
    cases session'
    rcases holds with ⟨dst', -⟩ | ⟨-, -, parked⟩
    · exact other (dst'.symm.trans dst)
    · rw [ready] at parked
      cases parked
  refine moved.advance (Book.move_confined X ahead free) (fun i _ => all i) (moved.below.move fun i member => ?_)
    (carries.settle (Book.move_grows ahead) (Book.move_moves keys .spent))
  obtain ⟨-, m, filed⟩ := waiting i member
  exact ⟨_, filed⟩

/-- Records at the slave's node of a session handing keys out one way are idle the other way,
and never parked there. -/
theorem unclaimed_of_mode {β : Book} {replay : Bool} (session : β.sessions x = some r) (mode : r.replays = some replay)
    (unparked : ∀ next, r.role X ≠ .ok (.first next)) :
    (∀ row : KeyRow, row.ksid = x → replay = false → ¬ β.Replays X row) ∧
      ∀ l : LocalKey, l.ksid = x → (replay = true → ¬ β.HandsOut X l) ∧ ¬ β.Parks X l := by
  refine ⟨fun row own clear ⟨r', session', _, replays⟩ => ?_, fun l own => ⟨fun rows ⟨r', session', _, replays⟩ => ?_,
    fun ⟨r', session', src, next, first⟩ => ?_⟩⟩
  · rw [own, session] at session'
    cases session'
    rw [mode, clear] at replays
    cases replays
  · rw [own, session] at session'
    cases session'
    rw [mode, rows] at replays
    cases replays
  · rw [own, session] at session'
    cases session'
    rw [src] at first
    exact unparked next first

end Redeem

/-- The answer to the slave: keys of the ids asked, each once, with the book's bytes, each waiting
before and redeemed after. -/
theorem redeemed_answer {src dst : AppId} {x : Ksid} {keys : List KeyId} {ms : List Material}
    (distinct : keys.Nodup) (waiting : ∀ i ∈ keys, β'.stage i = .ready)
    (read : List.Forall₂ (fun i m => β'.keys i = some (x, m)) keys ms) :
    Replies β' (β'.move keys .spent) (.decKeys src dst keys) (.ready (.keys (containers (keys.zip ms)))) := by
  have length : keys.length = ms.length := read.length_eq
  refine ⟨by rw [containers_keyIds, List.map_fst_zip (by omega)]; exact distinct, fun c member => ?_⟩
  obtain ⟨m, listed, text⟩ := mem_containers member
  have asked : c.keyId ∈ keys := (List.of_mem_zip listed).1
  exact ⟨waiting _ asked, by rw [Book.move_stage, if_pos asked], x, m, List.forall₂_zip read listed, text⟩

/-- Handing out the keys of a session from the slave's node, as rows to replay or clear keys,
redeems them. -/
theorem retrieve_redeems {src dst : AppId} (r : SessionRecord) (keys : List KeyId) (replay : Bool) (all : ∀ i, M i)
    (session : β'.sessions r.ksid = some r) (dst_here : r.kmeDst = X) (mode : r.replays = some replay)
    (unparked : ∀ next, r.role X ≠ .ok (.first next)) :
    Triple (Moved β e₀ X M n β')
      (do let materials ← engine (Engine.retrieve r.ksid keys replay); pure (Plan.answer (.keys (containers (keys.zip materials)))))
      (Served β e₀ X M n β' (.decKeys src dst keys)) (Tracked β e₀ X M n) := by
  obtain ⟨rowsIdle, localsIdle⟩ := unclaimed_of_mode session mode unparked
  cases replay with
  | true =>
    refine Triple.bind (triple_engine_moved (Q := fun ms t => keys.Nodup ∧ ∃ rows,
        List.Forall₂ (fun i row => (row.ksid, row.keyId) = (r.ksid, i) ∧ β'.RowOk X row) keys rows ∧
        ms = rows.map (spell β'.bytes ·.spans) ∧
        t.2.data.Carries (fun row => β'.RowOk X row ∧ (row.ksid = r.ksid → row.keyId ∉ keys)) (β'.LocalOk X))
      ((Engine.spells_retrieve_replay r.ksid keys).conseq (fun _ start => start)
        (fun _ _ ⟨distinct, rows, pairs, read, carries, spelt⟩ =>
          ⟨⟨carries.mono (fun _ _ ok => ok.1) fun _ _ ok => ok, spelt⟩, distinct, rows, pairs, read, carries⟩)
        fun _ failed => failed) (Engine.stays_retrieve _ _ _)) fun ms => ?_
    refine Triple.pure _ fun s ⟨moved, distinct, rows, pairs, read, carries⟩ => ?_
    -- each key asked for is read off its row, which the slave's node replays, so it was waiting
    have filed : List.Forall₂ (fun i m => β'.keys i = some (r.ksid, m)) keys ms := by
      rw [read, List.forall₂_map_right_iff]
      refine pairs.imp fun i row ⟨slot, ok⟩ => ?_
      obtain ⟨own, same⟩ := Prod.mk.inj slot
      rw [← same, ← own]
      exact ok.1
    have waiting : ∀ i ∈ keys, β'.stage i = .ready := by
      intro i member
      obtain ⟨row, -, slot, ok⟩ := Engine.forall₂_left pairs i member
      obtain ⟨own, same⟩ := Prod.mk.inj slot
      rw [← same]
      exact ok.2.2 ⟨r, own ▸ session, dst_here, mode⟩
    have known : ∀ i ∈ keys, ∃ m, β'.keys i = some (r.ksid, m) := fun i member =>
      let ⟨m, _, key⟩ := Engine.forall₂_left filed i member
      ⟨m, key⟩
    -- a row left of a key handed out would be of another session, which the book rules out
    refine ⟨_, moved.redeem all (fun i member => ⟨waiting i member, known i member⟩) session dst_here
      (carries.mono (fun row _ ok => ⟨ok.1, fun member _ => ?_⟩) fun l _ ok => ⟨ok, fun member => ?_⟩),
      trivial, redeemed_answer distinct waiting filed, fun _ _ i _ => all i⟩
    · obtain ⟨m, key⟩ := known _ member
      exact ok.2 (ok.1.ksid key) member
    · obtain ⟨m, key⟩ := known _ member
      exact ⟨(localsIdle l (ok.ksid key)).1 rfl, (localsIdle l (ok.ksid key)).2⟩
  | false =>
    refine Triple.bind (triple_engine_moved (Q := fun ms t => keys.Nodup ∧ ∃ locals,
        List.Forall₂ (fun i l => (l.ksid, l.keyId) = (r.ksid, i) ∧ β'.LocalOk X l) keys locals ∧
        ms = locals.map (·.material) ∧
        t.2.data.Carries (β'.RowOk X) (fun l => β'.LocalOk X l ∧ (l.ksid = r.ksid → l.keyId ∉ keys)))
      ((Engine.spells_retrieve_clear r.ksid keys).conseq (fun _ start => start)
        (fun _ _ ⟨distinct, locals, pairs, read, carries, spelt⟩ =>
          ⟨⟨carries.mono (fun _ _ ok => ok) fun _ _ ok => ok.1, spelt⟩, distinct, locals, pairs, read, carries⟩)
        fun _ failed => failed) (Engine.stays_retrieve _ _ _)) fun ms => ?_
    refine Triple.pure _ fun s ⟨moved, distinct, locals, pairs, read, carries⟩ => ?_
    -- each key asked for is a clear key the slave's node hands out, so it was waiting
    have filed : List.Forall₂ (fun i m => β'.keys i = some (r.ksid, m)) keys ms := by
      rw [read, List.forall₂_map_right_iff]
      refine pairs.imp fun i l ⟨slot, ok⟩ => ?_
      obtain ⟨own, same⟩ := Prod.mk.inj slot
      rw [← same, ← own]
      exact ok.1
    have waiting : ∀ i ∈ keys, β'.stage i = .ready := by
      intro i member
      obtain ⟨l, -, slot, ok⟩ := Engine.forall₂_left pairs i member
      obtain ⟨own, same⟩ := Prod.mk.inj slot
      rw [← same]
      exact ok.2.2.1 ⟨r, own ▸ session, dst_here, mode⟩
    have known : ∀ i ∈ keys, ∃ m, β'.keys i = some (r.ksid, m) := fun i member =>
      let ⟨m, _, key⟩ := Engine.forall₂_left filed i member
      ⟨m, key⟩
    refine ⟨_, moved.redeem all (fun i member => ⟨waiting i member, known i member⟩) session dst_here
      (carries.mono (fun row _ ok => ⟨ok, fun member => ?_⟩) fun l _ ok => ⟨ok.1, fun member => ?_⟩),
      trivial, redeemed_answer distinct waiting filed, fun _ _ i _ => all i⟩
    · obtain ⟨m, key⟩ := known _ member
      exact rowsIdle row (ok.ksid key) rfl
    · obtain ⟨m, key⟩ := known _ member
      exact absurd member (ok.2 (ok.1.ksid key))

/-- Keys handed to the slave: those of the ids asked, each waiting at this node in the book
before, redeemed in the book after, handed with the book's bytes and once. -/
theorem decKeys_moves (src dst : AppId) (keys : List KeyId) (all : ∀ i, M i) :
    Triple (Moved β e₀ X M n β') (decKeys src dst keys) (Served β e₀ X M n β' (.decKeys src dst keys))
      (Tracked β e₀ X M n) := by
  unfold decKeys
  refine Triple.bind (sessionByApps_moved src dst) fun r => Triple.assume fun session => ?_
  refine Triple.bind current_moved fun k => Triple.assume fun own => ?_
  rw [own]
  split
  · exact fail_moved _
  rename_i here
  have dst_here : r.kmeDst = X := not_not.mp here
  refine Triple.bind (checkCount_moved _) fun _ => ?_
  refine Triple.bind (lift_moved _) fun role => Triple.assume fun placed => ?_
  -- the slave's node replays rows next to the master and hands out clear keys otherwise
  have redeems : ∀ replay, r.replays = some replay → (∀ next, role ≠ .first next) →
      Triple (Moved β e₀ X M n β')
        (do let materials ← engine (Engine.retrieve r.ksid keys replay); pure (Plan.answer (.keys (containers (keys.zip materials)))))
        (Served β e₀ X M n β' (.decKeys src dst keys)) (Tracked β e₀ X M n) := fun replay mode other =>
    retrieve_redeems r keys replay all session dst_here mode fun next first => other next (by
      rw [placed] at first
      cases first
      rfl)
  split
  · rw [pure_bind]
    exact redeems true (by simp [SessionRecord.replays, dst_here, placed]) fun _ first => (by cases first)
  · rw [pure_bind]
    exact redeems false (by simp [SessionRecord.replays, dst_here, placed]) fun _ first => (by cases first)
  · rw [pure_bind]
    exact redeems false (by simp [SessionRecord.replays, dst_here, placed]) fun _ first => (by cases first)
  · exact Triple.bind (fail_moved (Q := fun _ _ => False) _) fun _ _ no => no.elim

/-! ### Every request -/

/-- A request a node answers, found as its call asks, moves the book only on the keys the call may
move and within two generations' draws, to a book in which the plan's calls find what they ask and
of which the reply says what it should. -/
theorem handle_moves (req : KmeRequest) (asks : (Call.kme X req).Asks β')
    (room : e₀.counter + e₀.step * (n + Engine.batchLimit + Engine.batchLimit) < Ident.space) (pos : 0 < e₀.step) :
    Triple (Moved β e₀ X (Call.kme X req).Movable n β') (handle req)
      (Served β e₀ X (Call.kme X req).Movable (n + Engine.batchLimit + Engine.batchLimit) β' req)
      (Tracked β e₀ X (Call.kme X req).Movable (n + Engine.batchLimit + Engine.batchLimit)) := by
  have le : n ≤ n + Engine.batchLimit + Engine.batchLimit := by omega
  cases req with
  | deliverBlock => exact asks.elim
  | linkConfirmed => exact asks.elim
  | openSession src dst qos master => exact widen_served (openSession_moved src dst qos master) le
  | status src dst => exact widen_served (status_moved src dst) le
  | closeSession ksid origin => exact widen_served (closeSession_moved ksid origin) le
  | syncKeys ℓ rows consumed => exact widen_served (syncKeys_moved ℓ rows consumed asks) le
  | assignSession r => exact widen_served (assignSession_moved r asks) le
  | encKeys src dst number size =>
    exact Triple.bind (widen sweepQuietly_moved le) fun _ =>
      encKeys_moves src dst number size (fun _ => trivial) room pos
  | decKeys src dst keys =>
    exact Triple.bind (widen sweepQuietly_moved le) fun _ => widen_served (decKeys_moves src dst keys fun _ => trivial) le
  | relayForward ksid keyId otkId cipher size =>
    -- a relay draws for one generation only
    have fits : e₀.counter + e₀.step * (n + Engine.batchLimit) < Ident.space :=
      lt_of_le_of_lt (Nat.add_le_add_left (Nat.mul_le_mul_left _ (Nat.le_add_right _ _)) _) room
    exact widen_served (relayForward_moves ksid keyId otkId cipher size rfl asks fits pos) (Nat.le_add_right _ _)

end Kme

end KeyRelay
