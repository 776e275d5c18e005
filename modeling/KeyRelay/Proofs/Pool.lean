import KeyRelay.Pool
import KeyRelay.Proofs.Run
import KeyRelay.Proofs.Carve

/-! The pool's operations on records without fault injection, whose index agrees with their
blocks. Each operation gets one lemma that says what it returns and how it leaves the blocks:
`reserve` either refuses and changes nothing or cuts exactly the bytes asked for from the link's
blocks; `read` gives the bytes under spans inside resident blocks; `undo` gives back spans cut
one after the other; dropping references and sweeping move no cursor; acknowledging moves each
cursor of the link to the furthest end the companion consumed. -/

namespace KeyRelay

namespace Storage

/-- The records with a block's cursor and references written over the stored block of its id. -/
def written (st : Storage) (b : Block) : Storage :=
  let blocks := st.data.blocks.modify b.id fun x => { x with offset := b.offset, inUse := b.inUse }
  { st with data := { st.data with blocks } }

/-- Writing back a stored block of the same link succeeds. -/
theorem updateBlock_stored {st : Storage} (steady : st.Steady) {b c : Block}
    (stored : st.data.blocks.get? b.id = some c) (link : c.link = b.link) :
    updateBlock b st = .ok () (st.written b) := by
  rw [updateBlock_steady steady.calm]
  simp [Store.updateBlock, stored, link, written]

theorem Steady.written {st : Storage} (steady : st.Steady) {b c : Block}
    (stored : st.data.blocks.get? b.id = some c) (link : c.link = b.link) : (st.written b).Steady := by
  refine ⟨steady.calm, steady.indexed.updateBlock (b := b) ?_⟩
  simp [Store.updateBlock, stored, link, Storage.written]

/-- Writing back a stored block moves its cursor to the written one and nothing else. -/
theorem bare_written {st : Storage} {b c : Block} (stored : st.data.blocks.get? b.id = some c) :
    (st.written b).data.bare = Function.update st.data.bare b.id (some { c.bare with offset := b.offset }) := by
  funext X
  rw [Function.update_apply]
  by_cases same : X = b.id
  · subst same
    simp [written, Store.bare, stored, Block.bare]
  · simp [written, Store.bare, Ne.symm same, same]

theorem get?_written (st : Storage) (b : Block) (X : BlockId) :
    (st.written b).data.blocks.get? X =
      if b.id = X then (st.data.blocks.get? X).map fun x => { x with offset := b.offset, inUse := b.inUse }
      else st.data.blocks.get? X := by
  simp [written]

end Storage

/-- Spans just cut lie inside blocks that are still stored. -/
theorem Carves.readable {ℓ : LinkId} {v : BlockId → Option Block} {C : List Span} {st : Storage}
    (carves : Carves ℓ v C st.data.bare) {s : Span} (member : s ∈ C) :
    ∃ b, st.data.blocks.get? s.block = some b ∧ s.start < s.stop ∧ s.stop ≤ b.bytes.length := by
  obtain ⟨b0, was, -, -, nonempty, fits⟩ := carves.span_bounds member
  have there := carves.get_eq s.block
  rw [was] at there
  obtain ⟨b, found, bare⟩ := Option.map_eq_some_iff.mp there
  have bytes : b.bytes = b0.bytes := by simpa using congrArg Block.bytes bare
  exact ⟨b, found, nonempty, bytes ▸ fits⟩


namespace Pool

theorem total_from (blocks : List Block) (n : Nat) :
    blocks.foldl (fun n b => n + b.available) n = n + total blocks := by
  induction blocks generalizing n with
  | nil => rfl
  | cons b rest ih =>
    simp only [total, List.foldl_cons, ih (n + b.available), ih (0 + b.available)]
    omega

theorem total_cons (b : Block) (rest : List Block) : total (b :: rest) = b.available + total rest := by
  simp only [total, List.foldl_cons, total_from rest (0 + b.available)]
  omega

/-- Cutting from a snapshot of stored blocks of a link, each once, always succeeds: it cuts as
many bytes as asked for, or as the blocks have. -/
theorem carveAll_spec {ℓ : LinkId} : ∀ (blocks : List Block) (remaining : Nat) (carved : List Span)
    (st : Storage), st.Steady → (∀ b ∈ blocks, st.data.blocks.get? b.id = some b ∧ b.link = ℓ) →
    (blocks.map (·.id)).Nodup →
    ∃ C st', carveAll blocks remaining carved st = .ok (carved ++ C) st' ∧ st'.Steady ∧
      Carves ℓ st.data.bare C st'.data.bare ∧ (C.map Span.len).sum = min remaining (total blocks)
  | [], _, carved, st, steady, _, _ => ⟨[], st, by simp [carveAll, run_pure], steady, .nil, by simp [total]⟩
  | b :: rest, remaining, carved, st, steady, stored, distinct => by
    obtain ⟨here, link⟩ := stored b (by simp)
    rw [List.map_cons, List.nodup_cons] at distinct
    by_cases done : remaining = 0
    · exact ⟨[], st, by simp [carveAll, done, run_pure], steady, .nil, by simp [done]⟩
    cases cut : b.carve remaining with
    | none =>
      have empty := Block.carve_eq_none cut
      obtain ⟨C, st', run, steady', carves, sum⟩ :=
        carveAll_spec rest remaining carved st steady (fun c member => stored c (by simp [member]))
          distinct.2
      refine ⟨C, st', ?_, steady', carves, ?_⟩
      · simpa [carveAll, done, cut] using run
      · rw [sum, total_cons]
        omega
    | some result =>
      obtain ⟨b', s⟩ := result
      obtain ⟨block, start, nonempty, inside, _, taken, rfl⟩ := Block.carve_eq_some cut
      let b' : Block := { b with offset := s.stop, inUse := b.inUse + 1 }
      have update := Storage.updateBlock_stored steady (b := b') here rfl
      let st1 := st.written b'
      have steady1 : st1.Steady := steady.written (b := b') here rfl
      have stored1 : ∀ c ∈ rest, st1.data.blocks.get? c.id = some c ∧ c.link = ℓ := by
        intro c member
        have other : b.id ≠ c.id := fun same => distinct.1 (same ▸ List.mem_map_of_mem member)
        simpa [st1, Storage.get?_written, b', other] using stored c (by simp [member])
      obtain ⟨C, st', run, steady', carves, sum⟩ :=
        carveAll_spec rest (remaining - s.len) (carved ++ [s]) st1 steady1 stored1 distinct.2
      have first : Carves ℓ st.data.bare [s] st1.data.bare := by
        rw [Storage.bare_written (b := b') here]
        simp only [b']
        rw [← block]
        exact Carves.snoc s .nil (by simp [Store.bare, block, here]) link start nonempty inside
      refine ⟨[s] ++ C, st', ?_, steady', first.append carves, ?_⟩
      · simp only [carveAll, done, if_false, cut]
        rw [run_bind_ok (run_tryCatch_ok update)]
        simpa using run
      · simp only [List.map_append, List.map_cons, List.map_nil, List.sum_append, List.sum_cons,
          List.sum_nil, sum, total_cons]
        simp only [Block.available] at taken ⊢
        omega

/-- A reservation either refuses, changing nothing, or cuts exactly `n` bytes from the link's
blocks, oldest first. -/
theorem reserve_spec (p : Pool) (ℓ : LinkId) (n now : Nat) {st : Storage} (steady : st.Steady) :
    (∃ e, p.reserve ℓ n now st = .error e st) ∨
    ∃ C st', p.reserve ℓ n now st = .ok C st' ∧ st'.Steady ∧ Carves ℓ st.data.bare C st'.data.bare ∧
      (C.map Span.len).sum = n := by
  unfold reserve
  by_cases zero : n = 0
  · exact .inl ⟨_, by simp only [zero, if_true]; rfl⟩
  let blocks := (st.data.blocksForLink ℓ).filter (·.eligible now p.ttlSecs)
  have listed : p.eligible ℓ now st = .ok blocks st := by
    unfold eligible
    rw [run_bind_ok (Storage.blocksForLink_steady steady.calm ℓ)]
    rfl
  simp only [zero, if_false]
  rw [run_bind_ok listed]
  by_cases short : total blocks < n
  · exact .inl ⟨_, by simp only [short, if_true]; rfl⟩
  have stored : ∀ b ∈ blocks, st.data.blocks.get? b.id = some b ∧ b.link = ℓ :=
    fun b member => Store.mem_blocksForLink steady.indexed (List.mem_filter.mp member).1
  have distinct : (blocks.map (·.id)).Nodup :=
    (Store.blocksForLink_nodup steady.indexed ℓ).sublist (List.filter_sublist.map _)
  obtain ⟨C, st', run, steady', carves, sum⟩ := carveAll_spec blocks n [] st steady stored distinct
  refine .inr ⟨C, st', ?_, steady', carves, by omega⟩
  simp only [short, if_false]
  simpa using run

/-- Loading the blocks of resident spans succeeds and gives a cache that agrees with the
records and holds every block named. -/
theorem loadAll_spec {st : Storage} (steady : st.Steady) : ∀ (spans : List Span)
    (cache : Table BlockId Block), (∀ X b, cache.get? X = some b → st.data.blocks.get? X = some b) →
    (∀ s ∈ spans, (st.data.blocks.get? s.block).isSome) →
    ∃ cache', loadAll spans cache st = .ok cache' st ∧
      (∀ X b, cache'.get? X = some b → st.data.blocks.get? X = some b) ∧
      (∀ s ∈ spans, (cache'.get? s.block).isSome) ∧ (∀ X, (cache.get? X).isSome → (cache'.get? X).isSome)
  | [], cache, agree, _ => ⟨cache, rfl, agree, by simp, fun _ held => held⟩
  | s :: rest, cache, agree, resident => by
    by_cases known : cache.contains s.block
    · obtain ⟨cache', run, agree', covers, grows⟩ :=
        loadAll_spec steady rest cache agree fun t member => resident t (by simp [member])
      refine ⟨cache', by simp [loadAll, known, run], agree', ?_, grows⟩
      intro t member
      rcases List.mem_cons.mp member with rfl | later
      · exact grows _ (by rw [← Table.contains_eq_isSome]; exact known)
      · exact covers t later
    · obtain ⟨b, found⟩ := Option.isSome_iff_exists.mp (resident s (by simp))
      have ident : b.id = s.block := steady.indexed.ids _ _ found
      have agree1 : ∀ X c, (cache.insert b.id b).get? X = some c → st.data.blocks.get? X = some c := by
        intro X c hit
        rw [Table.get?_insert] at hit
        split at hit
        · rename_i here
          cases hit
          rw [← here, ident]
          exact found
        · exact agree X c hit
      obtain ⟨cache', run, agree', covers, grows⟩ :=
        loadAll_spec steady rest (cache.insert b.id b) agree1 fun t member => resident t (by simp [member])
      refine ⟨cache', ?_, agree', ?_, ?_⟩
      · simp only [loadAll, known, Bool.false_eq_true, if_false]
        rw [run_bind_ok (Storage.loadBlock_steady steady.calm _)]
        simpa [Store.loadBlock, found] using run
      · intro t member
        rcases List.mem_cons.mp member with rfl | later
        · exact grows _ (by simp [ident])
        · exact covers t later
      · intro X held
        apply grows
        rw [Table.get?_insert]
        split <;> simp [held]

/-- The bytes under spans inside resident blocks: as many as the spans cover. -/
theorem read_spec {st : Storage} (steady : st.Steady) (spans : List Span)
    (inside : ∀ s ∈ spans, ∃ b, st.data.blocks.get? s.block = some b ∧ s.start < s.stop ∧
      s.stop ≤ b.bytes.length) :
    ∃ m, read spans st = .ok m st ∧ m.len = (spans.map Span.len).sum := by
  obtain ⟨cache, loaded, agree, covers, -⟩ := loadAll_spec steady spans {} (by simp)
    fun s member => by obtain ⟨b, found, -⟩ := inside s member; simp [found]
  let part : Span → List UInt8 := fun s => (cache.get? s.block).elim [] fun b => (b.bytes.drop s.start).take s.len
  have each : ∀ s ∈ spans, part s = (st.data.blocks.get? s.block).elim [] fun b =>
      (b.bytes.drop s.start).take s.len := by
    intro s member
    obtain ⟨b, hit⟩ := Option.isSome_iff_exists.mp (covers s member)
    simp [part, hit, agree _ _ hit]
  refine ⟨Material.concat (spans.map part), ?_, ?_⟩
  · unfold read
    rw [run_bind_ok loaded, run_bind_ok (run_mapM_pure part spans ?_)]
    · rfl
    intro s member
    obtain ⟨b, found, nonempty, fits⟩ := inside s member
    obtain ⟨c, hit⟩ := Option.isSome_iff_exists.mp (covers s member)
    have same : c = b := by rw [agree _ _ hit] at found; cases found; rfl
    subst same
    have valid : ¬ s.stop ≤ s.start := by omega
    simp [part, hit, Block.slice, Span.validate, valid, fits, run_ofExcept_ok]
  · simp only [Material.concat, Material.len, List.length_flatten, List.map_map]
    congr 1
    apply List.map_congr_left
    intro s member
    obtain ⟨b, found, nonempty, fits⟩ := inside s member
    simp only [Function.comp_apply, each s member, found, Option.elim_some, List.length_take,
      List.length_drop, Span.len]
    omega

/-- Dropping references always succeeds and moves no cursor. -/
theorem releaseRange_spec {st : Storage} (steady : st.Steady) (spans : List Span) :
    ∃ st', releaseRange spans st = .ok () st' ∧ st'.Steady ∧ st'.data.bare = st.data.bare := by
  induction spans generalizing st with
  | nil => exact ⟨st, rfl, steady, rfl⟩
  | cons s rest ih =>
    unfold releaseRange
    rw [run_forM_cons, bind_assoc, run_bind_ok (Storage.loadBlock_steady steady.calm _)]
    cases found : st.data.blocks.get? s.block with
    | none => exact ih steady
    | some b =>
      have ident : b.id = s.block := steady.indexed.ids _ _ found
      have stored : st.data.blocks.get? b.release.id = some b := by simpa [Block.release, ident] using found
      rw [run_bind_ok (Storage.updateBlock_stored steady stored rfl)]
      obtain ⟨st', run, steady', view⟩ := ih (steady.written stored rfl)
      refine ⟨st', run, steady', ?_⟩
      have here : st.data.blocks.get? b.id = some b := ident ▸ found
      rw [view, Storage.bare_written stored, Function.update_eq_self_iff]
      simp [Store.bare, here, Block.release, Block.bare]

/-- Giving back spans cut one after the other, newest first, restores the cursors they started
from, whether or not their references are dropped too. -/
theorem undo_spec {ℓ : LinkId} {v w : BlockId → Option Block} {C : List Span} (carves : Carves ℓ v C w)
    (release : Bool) : ∀ st : Storage, st.Steady → st.data.bare = w →
    ∃ st', undo C release st = .ok () st' ∧ st'.Steady ∧ st'.data.bare = v := by
  induction carves with
  | nil => exact fun st steady view => ⟨st, rfl, steady, view⟩
  | @snoc spans w b s prior found link start nonempty inside ih =>
    intro st steady view
    simp only [undo, List.reverse_append, List.reverse_cons, List.reverse_nil, List.nil_append,
      List.singleton_append]
    rw [run_forM_cons, bind_assoc, run_bind_ok (Storage.loadBlock_steady steady.calm _)]
    have there : st.data.bare s.block = some { b with offset := s.stop } := by simp [view]
    obtain ⟨bs, hit, bare⟩ := Option.map_eq_some_iff.mp there
    have ident : bs.id = s.block := steady.indexed.ids _ _ hit
    have cursor : bs.offset = s.stop := by simpa using congrArg Block.offset bare
    simp only [hit, Block.uncarve_last ident.symm cursor.symm]
    let back : Block := { bs with offset := s.start, inUse := if release then bs.inUse - 1 else bs.inUse }
    have stored : st.data.blocks.get? back.id = some bs := by simpa [back, ident] using hit
    rw [run_bind_ok (Storage.updateBlock_stored steady stored rfl)]
    apply ih _ (steady.written stored rfl)
    -- the cursor of the span's block goes back to where the span started
    have key : back.id = s.block := ident
    rw [Storage.bare_written stored, view, key, Function.update_idem, Function.update_eq_self_iff, found]
    have restored : { bs.bare with offset := s.start } = b := by
      rw [bare]
      cases b
      simp only at start ⊢
      rw [start]
    simpa [back] using restored

/-! ### Acknowledging what the companion consumed -/

/-- Loading the blocks a companion's consumption names either refuses, changing nothing, or
gives the blocks of the link that are named and resident, each as stored. -/
theorem touched_spec {st : Storage} (steady : st.Steady) (ℓ : LinkId) (retained : List Span) :
    ∀ (spans : List Span) (t : Table BlockId Block), t.KeysNodup →
    (∀ X b, t.get? X = some b → st.data.blocks.get? X = some b ∧ b.link = ℓ) →
    (∃ e, touched ℓ retained spans t st = .error e st) ∨
    ∃ t', touched ℓ retained spans t st = .ok t' st ∧ t'.KeysNodup ∧
      (∀ X b, t'.get? X = some b → st.data.blocks.get? X = some b ∧ b.link = ℓ) ∧
      ∀ X, (t'.get? X).isSome ↔ ((t.get? X).isSome ∨ ∃ s ∈ spans, s.block = X ∧
        (st.data.blocks.get? X).isSome)
  | [], t, distinct, agree => .inr ⟨t, rfl, distinct, agree, by simp⟩
  | s :: rest, t, distinct, agree => by
    unfold touched
    cases valid : s.validate with
    | error e => exact .inl ⟨e, by rw [run_bind_error (run_ofExcept_error e st)]⟩
    | ok u =>
      rw [run_bind_ok (run_ofExcept_ok u st)]
      by_cases known : t.contains s.block
      · simp only [known, if_true]
        rcases touched_spec steady ℓ retained rest t distinct agree with failed | ⟨t', run, distinct', agree', keys⟩
        · exact .inl failed
        refine .inr ⟨t', run, distinct', agree', fun X => ?_⟩
        rw [keys X]
        constructor
        · rintro (inT | ⟨r, member, block, resident⟩)
          · exact .inl inT
          · exact .inr ⟨r, List.mem_cons_of_mem s member, block, resident⟩
        · rintro (inT | ⟨r, member, block, resident⟩)
          · exact .inl inT
          rcases List.mem_cons.mp member with rfl | later
          · rw [← block, ← Table.contains_eq_isSome]
            exact .inl known
          · exact .inr ⟨r, later, block, resident⟩
      · simp only [known, Bool.false_eq_true, if_false]
        rw [run_bind_ok (Storage.loadBlock_steady steady.calm _)]
        cases found : st.data.blocks.get? s.block with
        | some b =>
          dsimp only
          by_cases foreign : b.link ≠ ℓ
          · exact .inl ⟨_, by rw [if_pos foreign]; rfl⟩
          rw [if_neg foreign]
          have link : b.link = ℓ := by simpa using foreign
          have ident : b.id = s.block := steady.indexed.ids _ _ found
          have agree1 : ∀ X c, (t.insert b.id b).get? X = some c → st.data.blocks.get? X = some c ∧ c.link = ℓ := by
            intro X c hit
            rw [Table.get?_insert] at hit
            split at hit
            · rename_i here
              cases hit
              exact ⟨by rw [← here, ident]; exact found, link⟩
            · exact agree X c hit
          rcases touched_spec steady ℓ retained rest (t.insert b.id b) (Table.keysNodup_insert distinct _ _)
            agree1 with failed | ⟨t', run, distinct', agree', keys⟩
          · exact .inl failed
          refine .inr ⟨t', run, distinct', agree', fun X => ?_⟩
          rw [keys X, Table.get?_insert, ident]
          by_cases here : s.block = X
          · subst here
            simp [found]
          · simp only [here, if_false]
            constructor
            · rintro (inT | ⟨r, member, block, resident⟩)
              · exact .inl inT
              · exact .inr ⟨r, List.mem_cons_of_mem s member, block, resident⟩
            · rintro (inT | ⟨r, member, block, resident⟩)
              · exact .inl inT
              rcases List.mem_cons.mp member with rfl | later
              · exact absurd block here
              · exact .inr ⟨r, later, block, resident⟩
        | none =>
          dsimp only
          by_cases kept : retained.contains s
          · exact .inl ⟨_, by rw [if_pos kept]; rfl⟩
          rw [if_neg kept]
          rcases touched_spec steady ℓ retained rest t distinct agree with failed | ⟨t', run, distinct', agree', keys⟩
          · exact .inl failed
          refine .inr ⟨t', run, distinct', agree', fun X => ?_⟩
          rw [keys X]
          constructor
          · rintro (inT | ⟨r, member, block, resident⟩)
            · exact .inl inT
            · exact .inr ⟨r, List.mem_cons_of_mem s member, block, resident⟩
          · rintro (inT | ⟨r, member, block, resident⟩)
            · exact .inl inT
            rcases List.mem_cons.mp member with rfl | later
            · rw [← block, found] at resident
              cases resident
            · exact .inr ⟨r, later, block, resident⟩

/-- A block once the spans on it are acknowledged in turn. -/
def ackBlock (spans retained : List Span) (X : BlockId) (b : Block) : Block :=
  spans.foldl (fun b s => if s.block = X then b.acknowledge s (retained.contains s) else b) b

theorem ackBlock_bare (spans retained : List Span) (X : BlockId) (b : Block) :
    (ackBlock spans retained X b).bare = { b.bare with offset := ackReach spans X b.bytes.length b.offset } := by
  induction spans generalizing b with
  | nil => rfl
  | cons s rest ih =>
    by_cases here : s.block = X
    · simp only [ackBlock, ackReach, List.foldl_cons, here, if_true] at ih ⊢
      rw [ih]
      rfl
    · simp only [ackBlock, ackReach, List.foldl_cons, here, if_false] at ih ⊢
      exact ih b

theorem ackBlock_id (spans retained : List Span) (X : BlockId) (b : Block) :
    (ackBlock spans retained X b).id = b.id := by
  simpa using congrArg Block.id (ackBlock_bare spans retained X b)

theorem get?_ackAll (consumed retained : List Span) : ∀ (t : Table BlockId Block) (X : BlockId),
    (consumed.foldl (fun t s => t.modify s.block (·.acknowledge s (retained.contains s))) t).get? X =
      (t.get? X).map (ackBlock consumed retained X) := by
  induction consumed with
  | nil => intro t X; simp only [List.foldl_nil]; cases t.get? X <;> rfl
  | cons s rest ih =>
    intro t X
    simp only [List.foldl_cons, ih, Table.get?_modify]
    by_cases here : s.block = X
    · simp only [here, if_true, Option.map_map]
      cases t.get? X <;> simp [ackBlock, here]
    · simp only [here, if_false]
      cases t.get? X <;> simp [ackBlock, here]

theorem keysNodup_ackAll (consumed retained : List Span) : ∀ (t : Table BlockId Block), t.KeysNodup →
    (consumed.foldl (fun t s => t.modify s.block (·.acknowledge s (retained.contains s))) t).KeysNodup := by
  induction consumed with
  | nil => exact fun t distinct => distinct
  | cons s rest ih => exact fun t distinct => ih _ (Table.keysNodup_modify distinct _ _)

/-- Writing back blocks of distinct ids, each stored on its own link, always succeeds: each
cursor moves to the written one, and the other blocks stay. -/
theorem updateAll_spec {st : Storage} (steady : st.Steady) (L : List Block) (distinct : (L.map (·.id)).Nodup)
    (stored : ∀ b ∈ L, ∃ c, st.data.blocks.get? b.id = some c ∧ c.link = b.link) :
    ∃ st', L.forM Storage.updateBlock st = .ok () st' ∧ st'.Steady ∧
      (∀ b ∈ L, st'.data.bare b.id = (st.data.bare b.id).map ({ · with offset := b.offset })) ∧
      ∀ X, (∀ b ∈ L, b.id ≠ X) → st'.data.bare X = st.data.bare X := by
  induction L generalizing st with
  | nil => exact ⟨st, rfl, steady, by simp, fun _ _ => rfl⟩
  | cons b rest ih =>
    rw [List.map_cons, List.nodup_cons] at distinct
    obtain ⟨c, found, link⟩ := stored b (by simp)
    have other : ∀ b' ∈ rest, b.id ≠ b'.id := fun b' member same =>
      distinct.1 (same ▸ List.mem_map_of_mem member)
    have stored' : ∀ b' ∈ rest, ∃ c, (st.written b).data.blocks.get? b'.id = some c ∧ c.link = b'.link := by
      intro b' member
      simpa [Storage.get?_written, other b' member] using stored b' (by simp [member])
    obtain ⟨st', run, steady', moved, stay⟩ := ih (steady.written found link) distinct.2 stored'
    refine ⟨st', ?_, steady', ?_, ?_⟩
    · rw [run_forM_cons, run_bind_ok (Storage.updateBlock_stored steady found link)]
      exact run
    · intro b' member
      rcases List.mem_cons.mp member with rfl | later
      · rw [stay _ (fun b'' inside => Ne.symm (other b'' inside)), Storage.bare_written found]
        simp [Store.bare, found]
      · rw [moved b' later, Storage.bare_written found, Function.update_of_ne (Ne.symm (other b' later))]
    · intro X absent
      rw [stay X (fun b' inside => absent b' (List.mem_cons_of_mem b inside)), Storage.bare_written found,
        Function.update_of_ne (Ne.symm (absent b (by simp)))]

/-- Following a companion's consumption either refuses, changing nothing, or finds every named
resident block on the link and moves each cursor to the furthest end consumed on it. -/
theorem acknowledge_spec (ℓ : LinkId) (consumed retained : List Span) {st : Storage} (steady : st.Steady) :
    (∃ e, acknowledge ℓ consumed retained st = .error e st) ∨
    ∃ st', acknowledge ℓ consumed retained st = .ok () st' ∧ st'.Steady ∧
      (∀ s ∈ consumed, ∀ b, st.data.blocks.get? s.block = some b → b.link = ℓ) ∧
      st'.data.bare = fun X => (st.data.bare X).map fun b =>
        { b with offset := ackReach consumed X b.bytes.length b.offset } := by
  unfold acknowledge
  rcases touched_spec steady ℓ retained consumed {} Table.keysNodup_empty (by simp) with
    ⟨e, run⟩ | ⟨t, run, distinct, agree, keys⟩
  · exact .inl ⟨e, by rw [run_bind_error run]⟩
  rw [run_bind_ok run]
  -- the blocks written back are the touched ones, each acknowledged
  let t2 := consumed.foldl (fun t s => t.modify s.block (·.acknowledge s (retained.contains s))) t
  have distinct2 : t2.KeysNodup := keysNodup_ackAll consumed retained t distinct
  have entry : ∀ X b, (X, b) ∈ t2.entries → ∃ c, t.get? X = some c ∧ b = ackBlock consumed retained X c := by
    intro X b member
    have hit := Table.get?_of_mem distinct2 member
    rw [get?_ackAll] at hit
    obtain ⟨c, found, rfl⟩ := Option.map_eq_some_iff.mp hit
    exact ⟨c, found, rfl⟩
  have ident : ∀ e ∈ t2.entries, e.2.id = e.1 := by
    intro e member
    obtain ⟨c, found, same⟩ := entry e.1 e.2 member
    rw [same, ackBlock_id]
    exact steady.indexed.ids _ _ (agree _ _ found).1
  let L := sortedBy (·.id.val) t2.values
  have perm : L.Perm t2.values := List.mergeSort_perm _ _
  have idsNodup : (t2.values.map (·.id)).Nodup := by
    have same : t2.values.map (·.id) = t2.entries.map (·.1) := by
      simp only [Table.values, List.map_map]
      exact List.map_congr_left fun e member => ident e member
    rw [same]
    exact distinct2
  have inL : ∀ b, b ∈ L ↔ t2.get? b.id = some b := by
    intro b
    rw [perm.mem_iff, Table.mem_values]
    constructor
    · rintro ⟨X, member⟩
      have := ident _ member
      simp only at this
      rw [this]
      exact Table.get?_of_mem distinct2 member
    · intro hit
      exact ⟨b.id, Table.mem_of_get? hit⟩
  have stored : ∀ b ∈ L, ∃ c, st.data.blocks.get? b.id = some c ∧ c.link = b.link := by
    intro b member
    obtain ⟨c, found, same⟩ := entry b.id b (Table.mem_of_get? ((inL b).mp member))
    refine ⟨c, (agree _ _ found).1, ?_⟩
    rw [same]
    exact (by simpa using congrArg Block.link (ackBlock_bare consumed retained b.id c) :
      (ackBlock consumed retained b.id c).link = c.link).symm
  obtain ⟨st', written, steady', moved, stay⟩ :=
    updateAll_spec steady L ((perm.map _).nodup_iff.mpr idsNodup) stored
  refine .inr ⟨st', written, steady', ?_, ?_⟩
  · intro s member b found
    have inT : (t.get? s.block).isSome := by
      rw [keys]
      exact .inr ⟨s, member, rfl, by simp [found]⟩
    obtain ⟨c, hit⟩ := Option.isSome_iff_exists.mp inT
    obtain ⟨stored', link⟩ := agree _ _ hit
    rw [found] at stored'
    cases stored'
    exact link
  · funext X
    cases hit : t.get? X with
    | some c =>
      obtain ⟨stored', _⟩ := agree _ _ hit
      have inT2 : t2.get? X = some (ackBlock consumed retained X c) := by rw [get?_ackAll, hit]; rfl
      have idX : (ackBlock consumed retained X c).id = X := by
        rw [ackBlock_id]
        exact steady.indexed.ids _ _ stored'
      have member : ackBlock consumed retained X c ∈ L := (inL _).mpr (by rw [idX]; exact inT2)
      have := moved _ member
      rw [idX] at this
      have offset : (ackBlock consumed retained X c).offset = ackReach consumed X c.bytes.length c.offset := by
        simpa using congrArg Block.offset (ackBlock_bare consumed retained X c)
      rw [this]
      simp [Store.bare, stored', offset]
    | none =>
      have absent : ∀ b ∈ L, b.id ≠ X := by
        intro b member same
        have := (inL b).mp member
        rw [same, get?_ackAll, hit] at this
        cases this
      rw [stay X absent]
      cases resident : st.data.bare X with
      | none => rfl
      | some b =>
        have notNamed : ∀ s ∈ consumed, s.block ≠ X := by
          intro s member same
          have := (keys X).mpr (.inr ⟨s, member, same, by
            simp only [Store.bare, Option.map_eq_some_iff] at resident
            obtain ⟨c, found, -⟩ := resident
            simp [found]⟩)
          rw [hit] at this
          cases this
        simp only [Option.map_some, ackReach_of_absent consumed X _ _ notNamed]

/-! ### Sweeping and taking in blocks -/

/-- A sweep only deletes blocks. -/
theorem keeps_sweep (p : Pool) (now : Nat) : Keeps Storage.Kept (p.sweep now) :=
  Keeps.bind Storage.kept_chains Storage.keeps_listBlocks fun blocks =>
    Keeps.foldlM Storage.kept_chains blocks (fun _ b _ =>
      Keeps.ite _ (Keeps.bind Storage.kept_chains (Storage.keeps_deleteBlock b.id)
        fun _ => Keeps.pure Storage.kept_chains _) (Keeps.pure Storage.kept_chains _)) 0

/-- A delivered block is added unless its id is known; the pool numbers it. -/
theorem ingest_run (p : Pool) (ℓ : LinkId) (X : BlockId) (bytes : List UInt8) (timestamp : Nat)
    {st : Storage} (steady : st.Steady) :
    let b : Block := ⟨X, ℓ, timestamp, p.nextArrival, bytes, 0, 0⟩
    p.ingest ℓ X bytes timestamp st = .ok ((st.data.insertBlock b).1,
      if (st.data.insertBlock b).1 then { p with nextArrival := p.nextArrival + 1 } else p)
      { st with data := (st.data.insertBlock b).2 } ∧ Storage.Steady { st with data := (st.data.insertBlock b).2 } := by
  intro b
  refine ⟨?_, steady.calm, steady.indexed.insertBlock b⟩
  unfold ingest
  rw [run_bind_ok (Storage.insertBlock_steady steady.calm b)]
  rfl

/-! ### What keeps the blocks -/

theorem keeps_loadAll : ∀ (spans : List Span) (cache : Table BlockId Block),
    Keeps Storage.Kept (loadAll spans cache)
  | [], _ => Keeps.pure Storage.kept_chains _
  | s :: rest, cache => by
    unfold loadAll
    split
    · exact keeps_loadAll rest cache
    · refine Keeps.bind Storage.kept_chains (Storage.keeps_loadBlock _) fun found => ?_
      cases found with
      | none => exact Keeps.throw Storage.kept_chains _
      | some b => exact keeps_loadAll rest _

theorem keeps_read (spans : List Span) : Keeps Storage.Kept (read spans) :=
  Keeps.bind Storage.kept_chains (keeps_loadAll spans {}) fun cache =>
    Keeps.bind Storage.kept_chains (Keeps.mapM Storage.kept_chains spans fun s _ => by
      split
      · exact Keeps.throw Storage.kept_chains _
      · exact Keeps.ofExcept Storage.kept_chains _) fun _ => Keeps.pure Storage.kept_chains _

theorem keeps_releaseRange (spans : List Span) : Keeps Storage.Kept (releaseRange spans) := by
  intro st steady
  obtain ⟨st', run, steady', view⟩ := releaseRange_spec steady spans
  rw [run, endState_ok]
  exact ⟨steady', fun X b found => by rwa [view] at found⟩

theorem keeps_available (p : Pool) (ℓ : LinkId) (now : Nat) : Keeps Storage.Kept (p.available ℓ now) :=
  Keeps.bind Storage.kept_chains (Keeps.bind Storage.kept_chains (Storage.keeps_blocksForLink ℓ)
    fun _ => Keeps.pure Storage.kept_chains _) fun _ => Keeps.pure Storage.kept_chains _

end Pool

end KeyRelay
