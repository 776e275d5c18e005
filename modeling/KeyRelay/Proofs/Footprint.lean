import KeyRelay.Proofs.Cascade

/-! What each operation on a node's records may change. The pool's operations change the blocks
and their index only (`Storage.BlocksOnly`), so the rows, the clear keys and the session records
come out as they went in, whether the operation returns or fails (`Storage.SameKeys`). -/

namespace KeyRelay

theorem Keeps.imp {ε σ α : Type} {R R' : σ → σ → Prop} {m : EStateM ε σ α} (keeps : Keeps R m)
    (weaken : ∀ s t, R s t → R' s t) : Keeps R' m :=
  fun s => weaken _ _ (keeps s)

/-- A fact every start state gives may be assumed. -/
theorem Triple.given {σ α : Type} {P : σ → Prop} {m : EStateM Halt σ α} {Q : α → σ → Prop} {E : σ → Prop}
    {φ : Prop} (derive : ∀ s, P s → φ) (t : φ → Triple P m Q E) : Triple P m Q E :=
  fun s start => t (derive s start) s start

/-- Contents that have the rows, the clear keys and the session records of `d`. -/
def Store.SameKeys (d d' : Store) : Prop := d'.rows = d.rows ∧ d'.locals = d.locals ∧ d'.sessions = d.sessions

theorem Store.SameKeys.refl (d : Store) : Store.SameKeys d d := ⟨rfl, rfl, rfl⟩

/-- Contents that differ from `d` at most in their blocks and the index of the blocks. -/
def Store.BlocksOnly (d d' : Store) : Prop := d' = { d with blocks := d'.blocks, chain := d'.chain }

theorem Store.BlocksOnly.refl (d : Store) : Store.BlocksOnly d d := rfl

theorem Store.BlocksOnly.trans {a b c : Store} (first : Store.BlocksOnly a b) (second : Store.BlocksOnly b c) :
    Store.BlocksOnly a c := by
  unfold Store.BlocksOnly at *
  rw [second, first]

theorem Store.BlocksOnly.sameKeys {d d' : Store} (only : Store.BlocksOnly d d') : Store.SameKeys d d' := by
  unfold Store.BlocksOnly at only
  rw [only]
  exact ⟨rfl, rfl, rfl⟩

namespace Storage

/-- Runs that leave the rows, the clear keys and the session records as they were. -/
def SameKeys (s t : Storage) : Prop := Store.SameKeys s.data t.data

theorem sameKeys_chains : Chains SameKeys where
  refl := fun _ => Store.SameKeys.refl _
  trans := fun first second => ⟨second.1.trans first.1, second.2.1.trans first.2.1, second.2.2.trans first.2.2⟩

/-- An operation keeps a reflexive relation on the records' contents that its function keeps,
with or without fault injection in front of it: a failure leaves the contents as they were. -/
theorem keeps_of_call {α : Type} {R : Store → Store → Prop} (refl : ∀ d, R d d) (operation : String)
    (write : Bool) (f : Store → Except StoreError (α × Store)) (keeps : ∀ d a d', f d = .ok (a, d') → R d d') :
    Keeps (fun s t => R s.data t.data) (call operation write f) := by
  intro st
  unfold call
  dsimp only
  split
  · exact refl _
  · split
    · rename_i a d' ran
      exact keeps st.data a d' ran
    · exact refl _

theorem keeps_of_read {α : Type} {R : Store → Store → Prop} (refl : ∀ d, R d d) (operation : String)
    (f : Store → α) : Keeps (fun s t => R s.data t.data) (read operation f) :=
  keeps_of_call refl _ _ _ fun d _ _ ran => by
    obtain ⟨-, rfl⟩ := Prod.mk.inj (Except.ok.inj ran)
    exact refl d

theorem keeps_of_write {α : Type} {R : Store → Store → Prop} (refl : ∀ d, R d d) (operation : String)
    (f : Store → α × Store) (keeps : ∀ d, R d (f d).2) : Keeps (fun s t => R s.data t.data) (write operation f) :=
  keeps_of_call refl _ _ _ fun d _ d' ran => by
    have same : (f d).2 = d' := congrArg Prod.snd (Except.ok.inj ran)
    rw [← same]
    exact keeps d

theorem keeps_sameKeys_of_read {α : Type} (operation : String) (f : Store → α) : Keeps SameKeys (read operation f) :=
  keeps_of_read Store.SameKeys.refl _ _

theorem keeps_sameKeys_of_write {α : Type} (operation : String) (f : Store → α × Store)
    (keys : ∀ d, Store.SameKeys d (f d).2) : Keeps SameKeys (write operation f) :=
  keeps_of_write Store.SameKeys.refl _ _ keys

/-- A write whose function satisfies `post` from contents with `P`; with fault injection in
front it may fail instead, leaving the contents as they were. -/
theorem spec_of_write {α : Type} {P : Store → Prop} {Q : α → Store → Prop} {E : Store → Prop} (operation : String)
    (f : Store → α × Store) (post : ∀ d, P d → Q (f d).1 (f d).2) (err : ∀ d, P d → E d) :
    Spec (fun st => P st.data) (write operation f) (fun a st => Q a st.data) (fun st => E st.data) := by
  intro st start
  unfold write call
  dsimp only
  split
  · exact ⟨fun _ _ done => (by cases done), fun _ _ done => (by cases done; exact err _ start)⟩
  · exact ⟨fun _ _ done => (by cases done; exact post _ start), fun _ _ done => (by cases done)⟩

theorem keeps_sameKeys_storeLink (l : LinkRecord) : Keeps SameKeys (storeLink l) :=
  keeps_sameKeys_of_write _ _ fun _ => ⟨rfl, rfl, rfl⟩

/-- Runs that change the blocks and their index at most. -/
def BlocksOnly (s t : Storage) : Prop := Store.BlocksOnly s.data t.data

theorem blocksOnly_chains : Chains BlocksOnly := ⟨fun _ => Store.BlocksOnly.refl _, fun first second => first.trans second⟩

theorem keeps_sameKeys_of_blocksOnly {α : Type} {m : StoreM α} (keeps : Keeps BlocksOnly m) : Keeps SameKeys m :=
  keeps.imp fun _ _ only => Store.BlocksOnly.sameKeys only

theorem keeps_blocksOnly_of_read {α : Type} (operation : String) (f : Store → α) : Keeps BlocksOnly (read operation f) :=
  keeps_of_read Store.BlocksOnly.refl _ _

theorem keeps_blocksOnly_insertBlock (b : Block) : Keeps BlocksOnly (insertBlock b) :=
  keeps_of_write Store.BlocksOnly.refl _ _ fun d => by
    unfold Store.insertBlock
    split <;> exact rfl

theorem keeps_blocksOnly_deleteBlock (X : BlockId) : Keeps BlocksOnly (deleteBlock X) :=
  keeps_of_write Store.BlocksOnly.refl _ _ fun d => by
    show Store.BlocksOnly d (d.deleteBlock X)
    unfold Store.deleteBlock
    split <;> exact rfl

theorem keeps_blocksOnly_updateBlock (b : Block) : Keeps BlocksOnly (updateBlock b) :=
  keeps_of_call Store.BlocksOnly.refl _ _ _ fun d _ d' ran => by
    unfold Store.updateBlock at ran
    split at ran
    · cases ran
    · split at ran
      · cases ran
      · cases ran
        exact rfl

end Storage

namespace Pool

open Storage in
theorem keeps_blocksOnly_ingest (p : Pool) (ℓ : LinkId) (X : BlockId) (bytes : List UInt8) (timestamp : Nat) :
    Keeps BlocksOnly (p.ingest ℓ X bytes timestamp) :=
  Keeps.bind blocksOnly_chains (keeps_blocksOnly_insertBlock _) fun _ => Keeps.pure blocksOnly_chains _

open Storage in
theorem keeps_blocksOnly_eligible (p : Pool) (ℓ : LinkId) (now : Nat) : Keeps BlocksOnly (p.eligible ℓ now) :=
  Keeps.bind blocksOnly_chains (keeps_blocksOnly_of_read _ _) fun _ => Keeps.pure blocksOnly_chains _

open Storage in
theorem keeps_blocksOnly_available (p : Pool) (ℓ : LinkId) (now : Nat) : Keeps BlocksOnly (p.available ℓ now) :=
  Keeps.bind blocksOnly_chains (keeps_blocksOnly_eligible p ℓ now) fun _ => Keeps.pure blocksOnly_chains _

open Storage in
theorem keeps_blocksOnly_undo (spans : List Span) (release : Bool) : Keeps BlocksOnly (undo spans release) :=
  Keeps.forM blocksOnly_chains _ fun s _ =>
    Keeps.bind blocksOnly_chains (keeps_blocksOnly_of_read _ _) fun found => by
      cases found with
      | none => exact Keeps.pure blocksOnly_chains _
      | some b => exact keeps_blocksOnly_updateBlock _

open Storage in
theorem keeps_blocksOnly_rollback (spans : List Span) (release : Bool) : Keeps BlocksOnly (rollback spans release) :=
  Keeps.attempt blocksOnly_chains (keeps_blocksOnly_undo spans release)

open Storage in
theorem keeps_blocksOnly_carveAll : ∀ (blocks : List Block) (remaining : Nat) (carved : List Span),
    Keeps BlocksOnly (carveAll blocks remaining carved)
  | [], _, _ => Keeps.pure blocksOnly_chains _
  | b :: rest, remaining, carved => by
    unfold carveAll
    split
    · exact Keeps.pure blocksOnly_chains _
    · split
      · exact keeps_blocksOnly_carveAll rest remaining carved
      · refine Keeps.bind blocksOnly_chains (Keeps.tryCatch blocksOnly_chains (keeps_blocksOnly_updateBlock _)
          fun _ => Keeps.bind blocksOnly_chains (keeps_blocksOnly_rollback _ _) fun _ => Keeps.throw blocksOnly_chains _)
          fun _ => keeps_blocksOnly_carveAll rest _ _

open Storage in
theorem keeps_blocksOnly_reserve (p : Pool) (ℓ : LinkId) (n now : Nat) : Keeps BlocksOnly (p.reserve ℓ n now) := by
  unfold reserve
  dsimp only
  split
  · exact Keeps.throw_bind blocksOnly_chains _ _
  · refine Keeps.bind blocksOnly_chains (keeps_blocksOnly_eligible p ℓ now) fun blocks => ?_
    split
    · exact Keeps.throw_bind blocksOnly_chains _ _
    · exact keeps_blocksOnly_carveAll blocks n []

open Storage in
theorem keeps_blocksOnly_loadAll : ∀ (spans : List Span) (cache : Table BlockId Block),
    Keeps BlocksOnly (loadAll spans cache)
  | [], _ => Keeps.pure blocksOnly_chains _
  | s :: rest, cache => by
    unfold loadAll
    split
    · exact keeps_blocksOnly_loadAll rest cache
    · refine Keeps.bind blocksOnly_chains (keeps_blocksOnly_of_read _ _) fun found => ?_
      cases found with
      | none => exact Keeps.throw blocksOnly_chains _
      | some b => exact keeps_blocksOnly_loadAll rest _

open Storage in
theorem keeps_blocksOnly_read (spans : List Span) : Keeps BlocksOnly (read spans) :=
  Keeps.bind blocksOnly_chains (keeps_blocksOnly_loadAll spans {}) fun cache =>
    Keeps.bind blocksOnly_chains (Keeps.mapM blocksOnly_chains spans fun s _ => by
      split
      · exact Keeps.throw blocksOnly_chains _
      · exact Keeps.ofExcept blocksOnly_chains _) fun _ => Keeps.pure blocksOnly_chains _

open Storage in
theorem keeps_blocksOnly_releaseRange (spans : List Span) : Keeps BlocksOnly (releaseRange spans) :=
  Keeps.forM blocksOnly_chains _ fun s _ =>
    Keeps.bind blocksOnly_chains (keeps_blocksOnly_of_read _ _) fun found => by
      cases found with
      | none => exact Keeps.pure blocksOnly_chains _
      | some b => exact keeps_blocksOnly_updateBlock _

open Storage in
theorem keeps_blocksOnly_touched (ℓ : LinkId) (retained : List Span) : ∀ (consumed : List Span)
    (t : Table BlockId Block), Keeps BlocksOnly (touched ℓ retained consumed t)
  | [], _ => Keeps.pure blocksOnly_chains _
  | s :: rest, t => by
    unfold touched
    refine Keeps.bind blocksOnly_chains (Keeps.ofExcept blocksOnly_chains _) fun _ => ?_
    split
    · exact keeps_blocksOnly_touched ℓ retained rest t
    · refine Keeps.bind blocksOnly_chains (keeps_blocksOnly_of_read _ _) fun found => ?_
      cases found with
      | some b =>
        exact Keeps.ite _ (Keeps.throw blocksOnly_chains _) (keeps_blocksOnly_touched ℓ retained rest _)
      | none =>
        exact Keeps.ite _ (Keeps.throw blocksOnly_chains _) (keeps_blocksOnly_touched ℓ retained rest _)

open Storage in
theorem keeps_blocksOnly_acknowledge (ℓ : LinkId) (consumed retained : List Span) :
    Keeps BlocksOnly (acknowledge ℓ consumed retained) :=
  Keeps.bind blocksOnly_chains (keeps_blocksOnly_touched ℓ retained consumed {}) fun _ =>
    Keeps.forM blocksOnly_chains _ fun _ _ => keeps_blocksOnly_updateBlock _

open Storage in
theorem keeps_blocksOnly_sweep (p : Pool) (now : Nat) : Keeps BlocksOnly (p.sweep now) :=
  Keeps.bind blocksOnly_chains (keeps_blocksOnly_of_read _ _) fun blocks =>
    Keeps.foldlM blocksOnly_chains blocks (fun _ b _ =>
      Keeps.ite _ (Keeps.bind blocksOnly_chains (keeps_blocksOnly_deleteBlock b.id)
        fun _ => Keeps.pure blocksOnly_chains _) (Keeps.pure blocksOnly_chains _)) 0

open Storage in
theorem keeps_sameKeys_ingest (p : Pool) (ℓ : LinkId) (X : BlockId) (bytes : List UInt8) (timestamp : Nat) :
    Keeps SameKeys (p.ingest ℓ X bytes timestamp) :=
  keeps_sameKeys_of_blocksOnly (keeps_blocksOnly_ingest p ℓ X bytes timestamp)

open Storage in
theorem keeps_sameKeys_available (p : Pool) (ℓ : LinkId) (now : Nat) : Keeps SameKeys (p.available ℓ now) :=
  keeps_sameKeys_of_blocksOnly (keeps_blocksOnly_available p ℓ now)

open Storage in
theorem keeps_sameKeys_undo (spans : List Span) (release : Bool) : Keeps SameKeys (undo spans release) :=
  keeps_sameKeys_of_blocksOnly (keeps_blocksOnly_undo spans release)

open Storage in
theorem keeps_sameKeys_rollback (spans : List Span) (release : Bool) : Keeps SameKeys (rollback spans release) :=
  keeps_sameKeys_of_blocksOnly (keeps_blocksOnly_rollback spans release)

open Storage in
theorem keeps_sameKeys_reserve (p : Pool) (ℓ : LinkId) (n now : Nat) : Keeps SameKeys (p.reserve ℓ n now) :=
  keeps_sameKeys_of_blocksOnly (keeps_blocksOnly_reserve p ℓ n now)

open Storage in
theorem keeps_sameKeys_read (spans : List Span) : Keeps SameKeys (read spans) :=
  keeps_sameKeys_of_blocksOnly (keeps_blocksOnly_read spans)

open Storage in
theorem keeps_sameKeys_releaseRange (spans : List Span) : Keeps SameKeys (releaseRange spans) :=
  keeps_sameKeys_of_blocksOnly (keeps_blocksOnly_releaseRange spans)

open Storage in
theorem keeps_sameKeys_acknowledge (ℓ : LinkId) (consumed retained : List Span) :
    Keeps SameKeys (acknowledge ℓ consumed retained) :=
  keeps_sameKeys_of_blocksOnly (keeps_blocksOnly_acknowledge ℓ consumed retained)

open Storage in
theorem keeps_sameKeys_sweep (p : Pool) (now : Nat) : Keeps SameKeys (p.sweep now) :=
  keeps_sameKeys_of_blocksOnly (keeps_blocksOnly_sweep p now)

end Pool

namespace Engine

/-- Runs of the engine that leave the rows, the clear keys and the session records as they were. -/
def SameKeys (s t : Env × Storage) : Prop := Storage.SameKeys s.2 t.2

/-- Runs of the engine that leave the clear keys as they were. -/
def SameLocals (s t : Env × Storage) : Prop := t.2.data.locals = s.2.data.locals

theorem sameKeys_chains : Chains SameKeys :=
  ⟨fun s => Storage.sameKeys_chains.refl s.2, fun first second => Storage.sameKeys_chains.trans first second⟩

theorem SameKeys.locals {s t : Env × Storage} (same : SameKeys s t) : SameLocals s t := same.2.1

variable {α : Type}

theorem keeps_sameKeys_records {m : StoreM α} (inner : Keeps Storage.SameKeys m) : Keeps SameKeys (records m) :=
  Keeps.focus (·.2) (fun st s => (s.1, st)) (fun _ _ kept => kept) inner

theorem keeps_sameKeys_draw : Keeps SameKeys draw := fun _ => Store.SameKeys.refl _

theorem keeps_sameKeys_wallSecs : Keeps SameKeys wallSecs := fun _ => Store.SameKeys.refl _

theorem keeps_sameKeys_rollback (spans : List Span) (release : Bool) : Keeps SameKeys (rollback spans release) :=
  keeps_sameKeys_records (Pool.keeps_sameKeys_rollback spans release)

theorem onFailure_keeps {R : Env × Storage → Env × Storage → Prop} (chains : Chains R) {m : EngineM α}
    {undo : Fault → EngineM Unit} (inner : Keeps R m) (back : ∀ f, Keeps R (undo f)) : Keeps R (onFailure m undo) :=
  Keeps.tryCatch chains inner fun f => Keeps.bind chains (back f) fun _ => Keeps.throw chains _

/-- Cutting keys hands out one key for each one asked for, and touches only blocks. -/
theorem cutKeys_count (pool : Pool) (ℓ : LinkId) (size now : Nat) : ∀ (n : Nat) (carved : List Span)
    (keys : List Issued), Yields SameKeys (fun cut : List Span × List Issued => cut.2.length = keys.length + n)
      (cutKeys pool ℓ size now n carved keys)
  | 0, _, _ => Yields.pure sameKeys_chains rfl
  | n + 1, carved, keys => by
    unfold cutKeys
    refine Yields.bind sameKeys_chains (onFailure_keeps sameKeys_chains
      (keeps_sameKeys_records (Pool.keeps_sameKeys_reserve _ _ _ _)) fun _ => keeps_sameKeys_rollback _ _) fun spans => ?_
    refine Yields.bind sameKeys_chains (onFailure_keeps sameKeys_chains
      (keeps_sameKeys_records (Pool.keeps_sameKeys_read spans)) fun _ => keeps_sameKeys_rollback _ _) fun _ => ?_
    refine Yields.bind sameKeys_chains keeps_sameKeys_draw fun _ => ?_
    refine (cutKeys_count pool ℓ size now n _ _).imp fun cut counted => ?_
    simp only [List.length_append, List.length_singleton] at counted
    omega

theorem keeps_sameKeys_releaseEach (carved : List Span) : ∀ (released : Nat) (rest : List Span),
    Keeps SameKeys (releaseEach carved released rest)
  | _, [] => Keeps.pure sameKeys_chains _
  | released, s :: rest => by
    unfold releaseEach
    exact Keeps.bind sameKeys_chains (onFailure_keeps sameKeys_chains
      (keeps_sameKeys_records (Pool.keeps_sameKeys_releaseRange [s])) fun _ =>
        Keeps.bind sameKeys_chains (keeps_sameKeys_rollback _ _) fun _ => keeps_sameKeys_rollback _ _)
      fun _ => keeps_sameKeys_releaseEach carved (released + 1) rest

end Engine

namespace Kme

/-- Looking up the link to a neighbour changes nothing. -/
theorem triple_linkTo_frame {P : Env × Kme → Prop} (c : KmeId) : Triple P (linkTo c) (fun _ => P) P := by
  unfold linkTo
  refine Triple.bind triple_current fun k => ?_
  dsimp only
  split
  · exact Triple.pure _ fun _ start => start.1
  · exact triple_fail _ fun _ start => start.1

end Kme

end KeyRelay
