import KeyRelay.Proofs.Tallying
import KeyRelay.Proofs.PairIndex

/-! The ledger kept along a run of the network, and what each call asks of it. The book changes
in three ways: a generation files its keys at the stage the generating node's role gives them
(`Book.file`), a node moves keys it holds on to their next stage (`Book.move`), and the
controller enters a session it opened (`Book.enter`).

A node is as the book has it (`Kme.Booked`) when its records are tallied at its id, its store is
steady and every session it indexes is the book's. A node's computation is followed from the
book and the environment it started in (`Kme.Moved`): the book it has reached grew from the
first, moved only keys no other node holds to their stage, and knows nothing past the counter.

A call asks something of the book when it is made (`Call.Asks`), may move some keys on
(`Call.Movable`), and its answer says something of the book (`Call.Answers`). A plan is
carried out in a book where each of its calls finds what it asks, whatever the calls before it
moved (`Book.Planned`). -/

namespace KeyRelay

namespace Book

variable (β : Book)

/-- The book with the keys of a generation filed under session `x`, each at the stage `g` gives
its id. -/
def file (x : Ksid) (fresh : List KeyRelay.Issued) (g : KeyId → Stage) : Book :=
  { β with
    keys := fun i => ((fresh.find? (·.keyId == i)).map fun key => (x, key.material)).or (β.keys i)
    stage := fun i => if i ∈ fresh.map (·.keyId) then g i else β.stage i }

/-- The book with the keys `T` moved on to stage `g`. -/
def move (T : List KeyId) (g : Stage) : Book :=
  { β with stage := fun i => if i ∈ T then g else β.stage i }

/-- The book with a session entered. -/
def enter (r : SessionRecord) : Book :=
  { β with sessions := fun x => if x = r.ksid then some r else β.sessions x }

/-- A later book that moved on only keys of `M`. -/
def MovesOnly (M : KeyId → Prop) (β' : Book) : Prop :=
  β.Grows β' ∧ ∀ i, ¬ M i → β'.stage i = β.stage i

variable {β} {β' β'' : Book} {x : Ksid} {fresh : List KeyRelay.Issued} {g : KeyId → Stage}

theorem find?_keyId {fresh : List KeyRelay.Issued} (distinct : (fresh.map (·.keyId)).Nodup) {key : KeyRelay.Issued}
    (member : key ∈ fresh) : fresh.find? (·.keyId == key.keyId) = some key := by
  induction fresh with
  | nil => cases member
  | cons k rest ih =>
    rw [List.map_cons, List.nodup_cons] at distinct
    rcases List.mem_cons.mp member with rfl | later
    · simp
    · have other : k.keyId ≠ key.keyId := fun same => distinct.1 (same ▸ List.mem_map_of_mem later)
      rw [List.find?_cons_of_neg (by simpa using other)]
      exact ih distinct.2 later

theorem file_keys_fresh (distinct : (fresh.map (·.keyId)).Nodup) {key : KeyRelay.Issued} (member : key ∈ fresh) :
    (β.file x fresh g).keys key.keyId = some (x, key.material) := by
  simp [file, find?_keyId distinct member]

theorem file_keys_old {i : KeyId} (old : i ∉ fresh.map (·.keyId)) : (β.file x fresh g).keys i = β.keys i := by
  have missing : fresh.find? (·.keyId == i) = none :=
    List.find?_eq_none.mpr fun key member same => old (List.mem_map.mpr ⟨key, member, by simpa using same⟩)
  simp [file, missing]

@[simp] theorem file_sessions : (β.file x fresh g).sessions = β.sessions := rfl

theorem file_stage (i : KeyId) :
    (β.file x fresh g).stage i = if i ∈ fresh.map (·.keyId) then g i else β.stage i := rfl

/-- The keys of a generation are unknown to the book when they are filed. -/
def Unknown (β : Book) (fresh : List KeyRelay.Issued) : Prop :=
  ∀ i ∈ fresh.map (·.keyId), β.keys i = none ∧ β.stage i = .unborn

theorem file_grows (unknown : β.Unknown fresh) : β.Grows (β.file x fresh g) where
  bytes := rfl
  sessions := fun _ _ found => found
  keys := fun i v found => by
    have old : i ∉ fresh.map (·.keyId) := fun member => by simp [(unknown i member).1] at found
    rw [file_keys_old old]
    exact found
  rank := fun i => by
    rw [file_stage]
    split
    · rename_i member
      rw [(unknown i member).2]
      exact Nat.zero_le _
    · exact le_rfl

/-- Filing unknown keys moves no key another node holds: the book knew none of them. -/
theorem file_confined (X : KmeId) (unknown : β.Unknown fresh) : β.Confined X (β.file x fresh g) := by
  refine ⟨file_grows unknown, fun i moved Y _ claims => ?_⟩
  have member : i ∈ fresh.map (·.keyId) := by
    by_contra old
    exact moved (by rw [file_stage, if_neg old])
  obtain ⟨s, m, r, key, -⟩ := claims
  rw [(unknown i member).1] at key
  cases key

/-- A key the book knew keeps its entry and its stage when a generation is filed. -/
theorem file_known {i : KeyId} {v : Ksid × Material} (known : β.keys i = some v) (unknown : β.Unknown fresh) :
    (β.file x fresh g).keys i = some v ∧ (β.file x fresh g).stage i = β.stage i := by
  have old : i ∉ fresh.map (·.keyId) := fun member => by
    rw [(unknown i member).1] at known
    cases known
  exact ⟨by rw [file_keys_old old]; exact known, by rw [file_stage, if_neg old]⟩

theorem move_stage (T : List KeyId) (g : Stage) (i : KeyId) :
    (β.move T g).stage i = if i ∈ T then g else β.stage i := rfl

theorem move_grows {T : List KeyId} {g : Stage} (ahead : ∀ i ∈ T, (β.stage i).rank ≤ g.rank) :
    β.Grows (β.move T g) where
  bytes := rfl
  sessions := fun _ _ found => found
  keys := fun _ _ found => found
  rank := fun i => by
    rw [move_stage]
    split
    · rename_i member
      exact ahead i member
    · exact le_rfl

/-- Moving on keys that no node but `X` holds to their stage. -/
theorem move_confined (X : KmeId) {T : List KeyId} {g : Stage} (ahead : ∀ i ∈ T, (β.stage i).rank ≤ g.rank)
    (free : ∀ i ∈ T, ∀ Y, Y ≠ X → ¬ β.Claims Y i) : β.Confined X (β.move T g) := by
  refine ⟨move_grows ahead, fun i moved Y other => ?_⟩
  have member : i ∈ T := by
    by_contra out
    exact moved (by rw [move_stage, if_neg out])
  exact free i member Y other

theorem move_moves (T : List KeyId) (g : Stage) : ∀ i, (β.move T g).stage i ≠ β.stage i → i ∈ T := by
  intro i moved
  by_contra out
  exact moved (by rw [move_stage, if_neg out])

theorem enter_grows {r : SessionRecord} (new : β.sessions r.ksid = none) : β.Grows (β.enter r) where
  bytes := rfl
  sessions := fun y r' found => by
    show (if y = r.ksid then some r else β.sessions y) = some r'
    rw [if_neg fun same => by rw [same, new] at found; cases found]
    exact found
  keys := fun _ _ found => found
  rank := fun _ => le_rfl

theorem MovesOnly.refl (M : KeyId → Prop) (β : Book) : β.MovesOnly M β := ⟨.refl β, fun _ _ => rfl⟩

theorem MovesOnly.trans {M : KeyId → Prop} (first : β.MovesOnly M β') (second : β'.MovesOnly M β'') :
    β.MovesOnly M β'' :=
  ⟨first.1.trans second.1, fun i fixed => (second.2 i fixed).trans (first.2 i fixed)⟩

theorem MovesOnly.mono {M M' : KeyId → Prop} (moves : β.MovesOnly M β') (more : ∀ i, M i → M' i) :
    β.MovesOnly M' β' :=
  ⟨moves.1, fun i fixed => moves.2 i fun held => fixed (more i held)⟩

/-- A redeemed key stays redeemed. -/
theorem Grows.spent (grows : β.Grows β') {i : KeyId} (spent : β.stage i = .spent) : β'.stage i = .spent := by
  have rank := grows.rank i
  rw [spent] at rank
  cases stage : β'.stage i <;> simp_all [Stage.rank]

theorem Issued.grow {c : KeyContainer} (issued : β.Issued c) (grows : β.Grows β') : β'.Issued c :=
  let ⟨s, m, key, text⟩ := issued
  ⟨s, m, grows.keys _ _ key, text⟩

section Below

variable {e : Env}

/-- Keys filed at or below the counter keep the book unknowing past it. -/
theorem Below.file (below : β.Below e) (drawn : ∀ i ∈ fresh.map (·.keyId), i.val ≤ e.counter) :
    (β.file x fresh g).Below e := by
  intro i past
  have old : i ∉ fresh.map (·.keyId) := fun member => by have := drawn i member; omega
  rw [file_keys_old old, file_stage, if_neg old]
  exact below i past

theorem Below.move (below : β.Below e) {T : List KeyId} {g : Stage} (known : ∀ i ∈ T, ∃ v, β.keys i = some v) :
    (β.move T g).Below e := by
  intro i past
  have out : i ∉ T := fun member => by
    obtain ⟨v, key⟩ := known i member
    rw [(below i past).1] at key
    cases key
  rw [show (β.move T g).stage i = β.stage i from if_neg out]
  exact below i past

theorem Below.enter (below : β.Below e) {r : SessionRecord} (drawn : r.ksid.val ≤ e.counter) : (β.enter r).Below e := by
  intro i past
  have other : i ≠ r.ksid := fun same => by rw [same] at past; omega
  refine ⟨(below i past).1, (below i past).2.1, ?_⟩
  show (if i = r.ksid then some r else β.sessions i) = none
  rw [if_neg other]
  exact (below i past).2.2

end Below

end Book

/-- The stage a key of a batch is filed at: `kept` for a key kept in the clear, `handed` for one
handed out. -/
def Batch.stageOf (b : Batch) (handed kept : Stage) (i : KeyId) : Stage := if i ∈ b.storedIds then kept else handed

namespace Book

variable {β : Book} {X : KmeId}

/-- A row belongs to the session its key was issued for. -/
theorem RowOk.ksid {row : KeyRow} (ok : β.RowOk X row) {x : Ksid} {m : Material}
    (key : β.keys row.keyId = some (x, m)) : row.ksid = x := by
  have filed := ok.1
  rw [key] at filed
  cases filed
  rfl

/-- A clear key belongs to the session its key was issued for. -/
theorem LocalOk.ksid {l : LocalKey} (ok : β.LocalOk X l) {x : Ksid} {m : Material}
    (key : β.keys l.keyId = some (x, m)) : l.ksid = x := by
  have filed := ok.1
  rw [key] at filed
  cases filed
  rfl

/-- A row whose key is not waiting is none the node would replay. -/
theorem RowOk.idle_of_stage {row : KeyRow} (ok : β.RowOk X row) (waiting : β.stage row.keyId ≠ .ready) :
    ¬ β.Replays X row :=
  fun replays => waiting (ok.2.2 replays)

/-- A clear key neither waiting nor parked is none the node would hand out or keeps parked. -/
theorem LocalOk.idle_of_stage {l : LocalKey} (ok : β.LocalOk X l) (waiting : β.stage l.keyId ≠ .ready)
    (parked : β.stage l.keyId ≠ .parked) : ¬ β.HandsOut X l ∧ ¬ β.Parks X l :=
  ⟨fun out => waiting (ok.2.2.1 out), fun parks => parked (ok.2.2.2 parks)⟩

variable {x : Ksid} {fresh : List KeyRelay.Issued} {g : KeyId → Stage}

/-- A record of a key the book knew stays as the book has it once a generation is filed. -/
theorem RowOk.file {row : KeyRow} (ok : β.RowOk X row) (unknown : β.Unknown fresh) : (β.file x fresh g).RowOk X row := by
  have old : row.keyId ∉ fresh.map (·.keyId) := fun member => by
    have key := ok.1
    rw [(unknown _ member).1] at key
    cases key
  exact ok.grow (file_grows unknown) (.inl (by rw [file_stage, if_neg old]))

theorem LocalOk.file {l : LocalKey} (ok : β.LocalOk X l) (unknown : β.Unknown fresh) :
    (β.file x fresh g).LocalOk X l := by
  have old : l.keyId ∉ fresh.map (·.keyId) := fun member => by
    have key := ok.1
    rw [(unknown _ member).1] at key
    cases key
  exact ok.grow (file_grows unknown) (.inl (by rw [file_stage, if_neg old]))

variable {b : Batch} {r : SessionRecord}

/-- The rows of a batch are as the book has them once it is filed, at a node that would replay
them only if they wait. -/
theorem RowOk.batch_rows {q : KmeId} {relay : Bool} {now : Nat} (distinct : (b.keys.map (·.keyId)).Nodup)
    (spelt : ∀ key ∈ b.keys, key.material = spell β.bytes key.spans) (session : β.sessions x = some r)
    (waits : r.kmeDst = q → r.replays = some true → ∀ i ∈ b.keys.map (·.keyId), g i = .ready) :
    ∀ row ∈ b.rows x relay now, (β.file x b.keys g).RowOk q row := by
  intro row member
  obtain ⟨key, listed, rfl⟩ := List.mem_map.mp member
  have id : key.keyId ∈ b.keys.map (·.keyId) := List.mem_map_of_mem listed
  refine ⟨?_, by simp [session], fun ⟨r', session', dst, replays⟩ => ?_⟩
  · show (β.file x b.keys g).keys key.keyId = some (x, spell β.bytes key.spans)
    rw [file_keys_fresh distinct listed, spelt key listed]
  · have found : β.sessions x = some r' := session'
    rw [session] at found
    cases found
    show (β.file x b.keys g).stage key.keyId = .ready
    rw [file_stage, if_pos id]
    exact waits dst replays _ id

/-- A key a batch hands out is filed with its bytes at the stage for keys handed out. -/
theorem file_handed {handed kept : Stage} (distinct : (b.keys.map (·.keyId)).Nodup) {key : KeyRelay.Issued}
    (member : key ∈ b.issued) :
    (β.file x b.keys (b.stageOf handed kept)).keys key.keyId = some (x, key.material) ∧
      (β.file x b.keys (b.stageOf handed kept)).stage key.keyId = handed := by
  have inBatch : key ∈ b.keys := List.mem_append_left _ member
  -- the ids of a batch are distinct, so a key handed out is none of those kept
  have handedOut : key.keyId ∉ b.storedIds := by
    rw [Batch.keys, List.map_append, List.nodup_append] at distinct
    exact fun kept => distinct.2.2 _ (List.mem_map_of_mem member) _ kept rfl
  refine ⟨file_keys_fresh distinct inBatch, ?_⟩
  rw [file_stage, if_pos (List.mem_map_of_mem inBatch), Batch.stageOf, if_neg handedOut]

/-- The clear keys a batch keeps are as the book has them once it is filed, when its session
has the node hand them out only waiting and keep them only parked. -/
theorem LocalOk.batch_kept {now : Nat} {handed kept : Stage} (distinct : (b.keys.map (·.keyId)).Nodup)
    (session : β.sessions x = some r)
    (stores : (r.kmeDst = X → r.replays = some false → kept = .ready) ∧ (r.kmeSrc = X → r.Relayed → kept = .parked)) :
    ∀ l ∈ b.stored.map (fun key => (⟨x, key.keyId, key.material, now⟩ : LocalKey)),
      (β.file x b.keys (b.stageOf handed kept)).LocalOk X l := by
  intro l member
  obtain ⟨key, listed, rfl⟩ := List.mem_map.mp member
  have inBatch : key ∈ b.keys := List.mem_append_right _ listed
  have stored : key.keyId ∈ b.storedIds := List.mem_map_of_mem listed
  have stage : (β.file x b.keys (b.stageOf handed kept)).stage key.keyId = kept := by
    rw [file_stage, if_pos (List.mem_map_of_mem inBatch), Batch.stageOf, if_pos stored]
  refine ⟨file_keys_fresh distinct inBatch, by simp [session], fun ⟨r', session', dst, replays⟩ => ?_,
    fun ⟨r', session', src, relayed⟩ => ?_⟩
  · have found : β.sessions x = some r' := session'
    rw [session] at found
    cases found
    exact stage.trans (stores.1 dst replays)
  · have found : β.sessions x = some r' := session'
    rw [session] at found
    cases found
    exact stage.trans (stores.2 src relayed)

end Book

namespace Store

variable {β β' : Book} {X : KmeId} {d : Store}

/-- Records as a book has them at `X` stay so once keys of `T` have moved on, when no record of a
moved key is one `X` would hand out or keeps parked. -/
theorem Carries.settle {T : List KeyId} (grows : β.Grows β') (moved : ∀ i, β'.stage i ≠ β.stage i → i ∈ T)
    (carries : d.Carries (fun row => β.RowOk X row ∧ (row.keyId ∈ T → ¬ β.Replays X row))
      (fun l => β.LocalOk X l ∧ (l.keyId ∈ T → ¬ β.HandsOut X l ∧ ¬ β.Parks X l))) :
    d.Carries (β'.RowOk X) (β'.LocalOk X) := by
  refine carries.mono (fun row _ ok => ?_) fun l _ ok => ?_
  · by_cases same : β'.stage row.keyId = β.stage row.keyId
    · exact ok.1.grow grows (.inl same)
    · exact ok.1.grow grows (.inr (ok.2 (moved _ same)))
  · by_cases same : β'.stage l.keyId = β.stage l.keyId
    · exact ok.1.grow grows (.inl same)
    · exact ok.1.grow grows (.inr (ok.2 (moved _ same)))

end Store

namespace Role

/-- A role read off a path of one or two nodes serves both applications there. -/
theorem onPath_short {path : List KmeId} {me : KmeId} {role : Role} (placed : onPath path me = some role)
    (short : path.length ≤ 2) : ∃ c, role = .direct c := by
  unfold onPath at placed
  cases found : position? path me with
  | none => simp [found] at placed
  | some p =>
    simp only [found, Option.bind_eq_bind, Option.bind_some] at placed
    split at placed
    · cases placed
      exact ⟨none, rfl⟩
    · cases placed
      exact ⟨_, rfl⟩
    · rename_i one two
      have : path.length ≠ 1 := one
      have : path.length ≠ 2 := two
      have empty : path = [] := List.eq_nil_of_length_eq_zero (by omega)
      subst empty
      simp [position?] at found

/-- On a path of three nodes or more no role serves both applications at one node. -/
theorem onPath_long_relays {path : List KmeId} {me : KmeId} {role : Role} (placed : onPath path me = some role)
    (long : 2 < path.length) : ∀ c, role ≠ .direct c := by
  unfold onPath at placed
  cases found : position? path me with
  | none => simp [found] at placed
  | some p =>
    simp only [found, Option.bind_eq_bind, Option.bind_some] at placed
    split at placed
    · omega
    · omega
    · intro c same
      subst same
      split at placed
      · cases placed
      · split at placed <;> cases placed

end Role

namespace SessionRecord

/-- A session relayed at one of its nodes is relayed at its slave's node too, which replays
no rows. -/
theorem replays_of_relayed {r : SessionRecord} {X : KmeId} {role : Role} (placed : r.role X = .ok role)
    (relayed : ∀ c, role ≠ .direct c) : r.replays ≠ some true := by
  have long : 2 < r.path.length := by
    have onPath : Role.onPath r.path X = some role := by
      unfold SessionRecord.role at placed
      split at placed
      · cases placed
        assumption
      · cases placed
    by_contra short
    obtain ⟨c, rfl⟩ := Role.onPath_short onPath (by omega)
    exact relayed c rfl
  unfold replays SessionRecord.role
  split
  · rename_i dst _ placed'
    split at placed'
    · rename_i role' found
      cases placed'
      exact absurd rfl (Role.onPath_long_relays found long _)
    · cases placed'
  all_goals simp

/-- A session is relayed only if its master's role is the first of a longer path. -/
theorem not_relayed {r : SessionRecord} {X : KmeId} {role : Role} (src : r.kmeSrc = X) (placed : r.role X = .ok role)
    (other : ∀ next, role ≠ .first next) : ¬ r.Relayed := by
  rintro ⟨next, first⟩
  rw [src, placed] at first
  cases first
  exact other next rfl

end SessionRecord

namespace Relay

/-- A text masks a key exactly when it is the encoding of the key masked. -/
theorem wrap_ok {key otk : Material} {cipher : String} (masked : wrap key otk = .ok cipher) :
    ∃ c : Material, c.encode = cipher ∧ c.xor otk = .ok key := by
  rw [wrap_eq] at masked
  cases xored : key.xor otk with
  | error f =>
    rw [xored] at masked
    cases masked
  | ok c =>
    rw [xored] at masked
    cases masked
    have same : key.len = otk.len := by
      by_contra differ
      rw [Material.xor_of_len_ne differ] at xored
      cases xored
    obtain ⟨c', again, -, undone⟩ := Material.xor_xor same
    rw [xored] at again
    cases again
    exact ⟨c, rfl, undone⟩

/-- One text masks at most one key under a given one-time key. -/
theorem wrap_injective {k₁ k₂ otk : Material} {cipher : String} (first : wrap k₁ otk = .ok cipher)
    (second : wrap k₂ otk = .ok cipher) : k₁ = k₂ := by
  obtain ⟨c₁, text₁, undone₁⟩ := wrap_ok first
  obtain ⟨c₂, text₂, undone₂⟩ := wrap_ok second
  have same : c₁ = c₂ := by
    have read := Material.decode_ok_iff_encodes.mpr text₁
    rw [← text₂, Material.decode_ok_iff_encodes.mpr rfl] at read
    cases read
    rfl
  rw [same, undone₂] at undone₁
  cases undone₁
  rfl

/-- Unmasking a text that masks a key with the same one-time key recovers that key. -/
theorem unwrap_recovers {cipher : String} {otk key key' : Material} {size : Nat}
    (masked : wrap key otk = .ok cipher) (unmasked : unwrap cipher otk size = .ok key') : key' = key := by
  have outcome := unwrap_unmasks cipher otk size
  rw [unmasked] at outcome
  cases outcome with
  | recovered c _ _ _ _ masks => exact wrap_injective masks masked

end Relay

/-- A precondition that some witness has: the computation runs from each. -/
theorem Triple.exists_pre {σ α γ : Type} {P : γ → σ → Prop} {m : EStateM Halt σ α} {Q : α → σ → Prop} {E : σ → Prop}
    (each : ∀ c, Triple (P c) m Q E) : Triple (fun s => ∃ c, P c s) m Q E :=
  fun s ⟨c, start⟩ => each c s start

namespace Kme

/-- A node as book `β` has it: its records tallied at its id, its store steady, and every
session it indexes filed under its id as the book has it. -/
structure Booked (β : Book) (k : Kme) : Prop where
  tallied : k.storage.data.Tallied β k.id
  steady : k.storage.Steady
  index : ∀ x r, k.sessions.get? x = some r → r.ksid = x ∧ β.sessions x = some r

variable {β β' β'' : Book} {k : Kme}

theorem Booked.spelt (booked : k.Booked β) : k.storage.Spelt β.bytes := ⟨booked.steady, booked.tallied.spelled⟩

/-- A node stays as a later book has it when no key it holds to its stage moved. -/
theorem Booked.grow (booked : k.Booked β) (grows : β.Grows β')
    (settled : ∀ i, β'.stage i ≠ β.stage i → ¬ β.Claims k.id i) : k.Booked β' := by
  refine ⟨booked.tallied.grow grows settled, booked.steady, fun x r found => ?_⟩
  obtain ⟨own, known⟩ := booked.index x r found
  exact ⟨own, grows.sessions x r known⟩

/-- A node other than `X` stays as the book has it when `X` moves keys on. -/
theorem Booked.confined {X : KmeId} (booked : k.Booked β) (confined : β.Confined X β') (other : k.id ≠ X) :
    k.Booked β' :=
  booked.grow confined.1 fun i moved => confined.2 i moved k.id other

/-- The node with other records, as the book has them. -/
theorem Booked.restore (booked : k.Booked β) {st : Storage}
    (carries : st.data.Carries (β.RowOk k.id) (β.LocalOk k.id)) (spelt : st.Spelt β.bytes) :
    { k with storage := st }.Booked β :=
  ⟨⟨spelt.2, carries⟩, spelt.1, booked.index⟩

/-- A session found by its applications is the book's, under its own id. -/
theorem Booked.byPair (booked : k.Booked β) {src dst : AppId} {r : SessionRecord}
    (found : k.sessions.byPair? src dst = some r) : β.sessions r.ksid = some r := by
  have keyed : k.sessions.Keyed := fun x r' found' => (booked.index x r' found').1
  exact (booked.index _ _ (SessionIndex.byPair?_filed keyed found).2).2

/-- A computation of node `X` so far, from book `β` in environment `e₀`: book `β'` has the node
as it is and knows nothing past the counter; it grew from `β`, moving on only keys of `M` that
no other node holds to their stage; and at most `n` identifiers were drawn. -/
structure Moved (β : Book) (e₀ : Env) (X : KmeId) (M : KeyId → Prop) (n : Nat) (β' : Book) (s : Env × Kme) :
    Prop where
  id : s.2.id = X
  booked : s.2.Booked β'
  below : β'.Below s.1
  confined : β.Confined X β'
  moves : ∀ i, β'.stage i ≠ β.stage i → M i
  drew : Env.Drew n e₀ s.1

/-- Some book the computation of node `X` has reached from `β` and `e₀`. -/
def Tracked (β : Book) (e₀ : Env) (X : KmeId) (M : KeyId → Prop) (n : Nat) (s : Env × Kme) : Prop :=
  ∃ β', Moved β e₀ X M n β' s

variable {e₀ : Env} {X : KmeId} {M M' : KeyId → Prop} {n m : Nat} {s : Env × Kme}

theorem Moved.tracked (moved : Moved β e₀ X M n β' s) : Tracked β e₀ X M n s := ⟨β', moved⟩

theorem Moved.start {e : Env} (booked : k.Booked β) (below : β.Below e) : Moved β e k.id M 0 β (e, k) :=
  ⟨rfl, booked, below, .refl k.id β, fun _ moved => absurd rfl moved, .refl 0 e⟩

theorem Moved.mono (moved : Moved β e₀ X M n β' s) (le : n ≤ m) (more : ∀ i, M i → M' i) :
    Moved β e₀ X M' m β' s :=
  ⟨moved.id, moved.booked, moved.below, moved.confined, fun i moves => more i (moved.moves i moves), moved.drew.mono le⟩

theorem Moved.movesOnly (moved : Moved β e₀ X M n β' s) : β.MovesOnly M β' :=
  ⟨moved.confined.1, fun i fixed => by
    by_contra moves
    exact fixed (moved.moves i moves)⟩

theorem Moved.carries (moved : Moved β e₀ X M n β' s) : s.2.storage.data.Carries (β'.RowOk X) (β'.LocalOk X) :=
  moved.id ▸ moved.booked.tallied.holds

/-- The node with other records and environment, as the same book has them. -/
theorem Moved.restore (moved : Moved β e₀ X M n β' s) {t : Env × Storage}
    (carries : t.2.data.Carries (β'.RowOk X) (β'.LocalOk X)) (spelt : t.2.Spelt β'.bytes) (env : t.1 = s.1) :
    Moved β e₀ X M n β' (t.1, { s.2 with storage := t.2 }) := by
  rw [env]
  exact ⟨moved.id, moved.booked.restore (moved.id ▸ carries) spelt, moved.below, moved.confined, moved.moves,
    moved.drew⟩

/-- The node as a later book has it, after `X` moved on keys of `M`. -/
theorem Moved.advance (moved : Moved β e₀ X M n β' s) (confined : β'.Confined X β'')
    (moves : ∀ i, β''.stage i ≠ β'.stage i → M i) (below : β''.Below s.1)
    (carries : s.2.storage.data.Carries (β''.RowOk X) (β''.LocalOk X)) : Moved β e₀ X M n β'' s := by
  refine ⟨moved.id, ⟨⟨confined.1.bytes ▸ moved.booked.tallied.spelled, moved.id ▸ carries⟩, moved.booked.steady,
    fun x r found => ?_⟩, below, moved.confined.trans confined, fun i moved' => ?_, moved.drew⟩
  · obtain ⟨own, known⟩ := moved.booked.index x r found
    exact ⟨own, confined.1.sessions x r known⟩
  · by_cases first : β'.stage i = β.stage i
    · exact moves i (first ▸ moved')
    · exact moved.moves i first

section Engine

variable {α : Type} {m₀ : EngineM α}

/-- A computation of the key engine that draws nothing and keeps the records as the book has
them keeps the node's computation where it was. -/
theorem triple_engine_moved {Q : α → Env × Storage → Prop}
    (spec : Spec (fun t => t.2.data.Carries (β'.RowOk X) (β'.LocalOk X) ∧ t.2.Spelt β'.bytes) m₀
      (fun a t => (t.2.data.Carries (β'.RowOk X) (β'.LocalOk X) ∧ t.2.Spelt β'.bytes) ∧ Q a t)
      (fun t => t.2.data.Carries (β'.RowOk X) (β'.LocalOk X) ∧ t.2.Spelt β'.bytes))
    (stays : Keeps Engine.Stays m₀) :
    Triple (Moved β e₀ X M n β') (engine m₀) (fun a s => Moved β e₀ X M n β' s ∧ Q a (s.1, s.2.storage))
      (Tracked β e₀ X M n) := by
  intro s moved
  obtain ⟨returned, failed⟩ := (spec.keeping stays (F := fun t => t.1 = s.1) fun _ _ same kept => kept.trans same)
    (s.1, s.2.storage) ⟨⟨moved.carries, moved.booked.spelt⟩, rfl⟩
  rw [run_engine]
  cases run : m₀ (s.1, s.2.storage) with
  | ok a t =>
    obtain ⟨⟨⟨carries, spelt⟩, holds⟩, env⟩ := returned a t run
    obtain ⟨e, st⟩ := t
    cases env
    exact ⟨moved.restore carries spelt rfl, holds⟩
  | error f t =>
    obtain ⟨⟨carries, spelt⟩, env⟩ := failed f t run
    exact (moved.restore carries spelt env).tracked

/-- The same, for a computation with nothing to say of its value. -/
theorem triple_engine_kept (kept : Keeps Engine.Kept m₀) (carrying : ∀ {R L}, Keeps (Engine.Carrying R L) m₀)
    (stays : Keeps Engine.Stays m₀) :
    Triple (Moved β e₀ X M n β') (engine m₀) (fun _ => Moved β e₀ X M n β') (Tracked β e₀ X M n) :=
  (triple_engine_moved (Q := fun _ _ => True) ((Engine.spells_of_keeps kept carrying).conseq (fun _ start => start)
    (fun _ _ done => ⟨done, trivial⟩) fun _ failed => failed) stays).conseq
    (fun _ start => start) (fun _ _ done => done.1) fun _ failed => failed

end Engine

end Kme

/-- The call an action makes, if any. -/
def Action.call? : Action → Option Call
  | .callKme q req _ => some (.kme q req)
  | .callController req _ => some (.controller req)
  | .learnAddress .. => none

/-- What a call asks of the book when it is made: synced rows are as the book has them at the
node that stores them, a relayed key is on its way and masked with a one-time key of its
session, an assigned session is the book's; no block, link or node registration is asked
for. -/
def Call.Asks (β : Book) : Call → Prop
  | .kme q (.syncKeys _ rows _) => ∀ row ∈ rows, β.RowOk q row
  | .kme _ (.relayForward x k otk cipher _) =>
    β.stage k = .relayed ∧ ∃ mk mo, β.keys k = some (x, mk) ∧ β.keys otk = some (x, mo) ∧
      Relay.wrap mk mo = .ok cipher
  | .kme _ (.assignSession r) => β.sessions r.ksid = some r
  | .kme _ (.deliverBlock ..) => False
  | .kme _ (.linkConfirmed ..) => False
  | .kme _ _ => True
  | .controller (.registerApp ..) => True
  | .controller (.closeConnection _) => True
  | .controller _ => False

/-- The keys a call may move on: any key for the applications' requests of keys, the relayed
key for a relay, none for the others. -/
def Call.Movable : Call → KeyId → Prop
  | .kme _ (.encKeys ..), _ => True
  | .kme _ (.decKeys ..), _ => True
  | .kme _ (.relayForward _ k _ _ _), i => i = k
  | _, _ => False

/-- The keys an action may move on. -/
def Action.Movable (a : Action) (i : KeyId) : Prop := ∃ c, a.call? = some c ∧ c.Movable i

/-- What an answer says of the books before and after the call: keys handed to the master are
issued, keys handed to the slave are issued, were waiting and are now redeemed, each once. -/
def Call.Answers (β β' : Book) : Call → Except TransportError Answer → Prop
  | .kme _ (.encKeys ..), .ok (.kme (.keys cs)) => ∀ c ∈ cs, β'.Issued c
  | .kme _ (.decKeys ..), .ok (.kme (.keys cs)) =>
    (cs.map (·.keyId)).Nodup ∧ ∀ c ∈ cs, β.stage c.keyId = .ready ∧ β'.stage c.keyId = .spent ∧ β'.Issued c
  | _, _ => True

namespace Book

/-- A plan whose calls, made in order, each find the book as they ask, whatever the calls before
them moved on. -/
def Planned : Book → List Action → Prop
  | _, [] => True
  | β, a :: rest => (∀ c, a.call? = some c → c.Asks β) ∧ ∀ β', β.MovesOnly a.Movable β' → Planned β' rest

/-- Relays of distinct keys, each on its way and masked with a one-time key of its session, are
carried out in order: a relay moves on its own key only, which no later relay carries. -/
theorem planned_forwards {q : KmeId} {x : Ksid} {size : Nat} {pairs : List ((KeyId × Material) × KeyRelay.Issued)}
    {forwards : List Action}
    (made : List.Forall₂ (fun p a => ∃ cipher, Relay.wrap p.1.2 p.2.material = .ok cipher ∧
      a = .callKme q (.relayForward x p.1.1 p.2.keyId cipher size) true) pairs forwards) :
    ∀ {β : Book}, (pairs.map (·.1.1)).Nodup →
      (∀ p ∈ pairs, β.stage p.1.1 = .relayed ∧ β.keys p.1.1 = some (x, p.1.2) ∧ β.keys p.2.keyId = some (x, p.2.material)) →
      β.Planned forwards := by
  induction made with
  | nil => exact fun _ _ => trivial
  | @cons p a pairs' forwards' first _ ih =>
    intro β distinct onward
    rw [List.map_cons, List.nodup_cons] at distinct
    obtain ⟨cipher, masked, rfl⟩ := first
    obtain ⟨stage, key, pad⟩ := onward p List.mem_cons_self
    refine ⟨fun c call => ?_, fun β' moves => ih distinct.2 fun p' member => ?_⟩
    · cases call
      exact ⟨stage, _, _, key, pad, masked⟩
    · have other : ¬ (Action.callKme q (.relayForward x p.1.1 p.2.keyId cipher size) true).Movable p'.1.1 := by
        rintro ⟨c, call, movable⟩
        cases call
        have same : p'.1.1 = p.1.1 := movable
        exact distinct.1 (same ▸ List.mem_map_of_mem member)
      obtain ⟨stage', key', pad'⟩ := onward p' (List.mem_cons_of_mem p member)
      exact ⟨(moves.2 _ other).trans stage', moves.1.keys _ _ key', moves.1.keys _ _ pad'⟩

end Book

end KeyRelay
