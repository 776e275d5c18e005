import Mathlib
import KeyRelay.Session.Index
import KeyRelay.Proofs.Cascade

/-!
The pair entries of a session index over any run of inserts and removes. Every session is filed
under its own id, so a pair lookup finds a session the index holds; and the session inserted
last for a pair is what the lookup of that pair finds for as long as the index still holds it,
since a remove clears a pair entry only when it names the session removed.

The pair entry of a session is not cleared when another session replaces it under the same id:
the lookup of the old pair then finds the new session, of another pair. Over runs in which no
insert moves a held id to another pair, every pair entry names a held session of that very pair.
-/
namespace KeyRelay

namespace SessionIndex

/-- A call on a session index. -/
inductive Call where
  | insert (r : SessionRecord)
  | remove (k : Ksid)

/-- The index after a call. -/
def step (ix : SessionIndex) : Call → SessionIndex
  | .insert r => (ix.insert r).1
  | .remove k => (ix.remove k).1

/-- The index a run of calls builds from the empty one. -/
def replay (calls : List Call) : SessionIndex := calls.foldl step {}

/-- The session a call inserts. -/
def Call.inserted : Call → Option SessionRecord
  | .insert r => some r
  | .remove _ => none

/-- The session inserted last for a pair of applications. -/
def newest (calls : List Call) (src dst : AppId) : Option SessionRecord :=
  ((calls.filterMap Call.inserted).filter fun r => r.src = src ∧ r.dst = dst).getLast?

/-- An insert over a held id keeps the pair of the session it replaces. -/
def Call.KeepsPair (ix : SessionIndex) : Call → Prop
  | .insert r => ∀ old, ix.get? r.ksid = some old → old.src = r.src ∧ old.dst = r.dst
  | .remove _ => True

/-- Every call of a run, from `ix` on, keeps pairs at the index it meets. -/
def KeepsPairs : SessionIndex → List Call → Prop
  | _, [] => True
  | ix, c :: cs => c.KeepsPair ix ∧ KeepsPairs (step ix c) cs

/-! ### One call -/

variable {ix : SessionIndex} {r : SessionRecord} {k : Ksid}

theorem get?_insert (ix : SessionIndex) (r : SessionRecord) (j : Ksid) :
    (ix.insert r).1.get? j = if r.ksid = j then some r else ix.get? j := by
  simp [SessionIndex.insert, get?]

theorem byApps_insert (ix : SessionIndex) (r : SessionRecord) :
    (ix.insert r).1.byApps = ix.byApps.insert (r.src, r.dst) r.ksid := rfl

theorem get?_after_remove (ix : SessionIndex) (k j : Ksid) :
    (ix.remove k).1.get? j = if k = j then none else ix.get? j := by
  unfold SessionIndex.remove
  split
  · rename_i absent
    split
    · rename_i same
      exact same ▸ absent
    · rfl
  · simp [get?]

theorem byApps_remove (found : ix.get? k = some r) :
    (ix.remove k).1.byApps =
      if ix.byApps.get? (r.src, r.dst) = some k then ix.byApps.erase (r.src, r.dst) else ix.byApps := by
  unfold SessionIndex.remove
  rw [show ix.byKsid.get? k = some r from found]

/-- Every session is filed under its own id. -/
def Keyed (ix : SessionIndex) : Prop := ∀ k r, ix.get? k = some r → r.ksid = k

theorem keyed_empty : Keyed {} := fun k r found => by simp [get?] at found

theorem Keyed.step (keyed : ix.Keyed) (c : Call) : (SessionIndex.step ix c).Keyed := by
  intro j r' found
  cases c with
  | insert r =>
    rw [SessionIndex.step, get?_insert] at found
    split at found
    · rename_i same
      cases found
      exact same
    · exact keyed j r' found
  | remove k =>
    rw [SessionIndex.step, get?_after_remove] at found
    split at found
    · cases found
    · exact keyed j r' found

/-- A pair lookup finds a session filed under the id of the pair entry. -/
theorem byPair?_filed (keyed : ix.Keyed) {src dst : AppId} (found : ix.byPair? src dst = some r) :
    ix.byApps.get? (src, dst) = some r.ksid ∧ ix.get? r.ksid = some r := by
  simp only [byPair?, Option.bind_eq_bind, Option.bind_eq_some_iff] at found
  obtain ⟨j, entry, held⟩ := found
  have own : r.ksid = j := keyed j r held
  exact ⟨own ▸ entry, own ▸ held⟩

/-- Every session is filed under its own id, and every pair entry names a held session of that
pair. -/
structure Paired (ix : SessionIndex) : Prop where
  keyed : ix.Keyed
  owned : ∀ src dst j, ix.byApps.get? (src, dst) = some j →
    ∃ r, ix.get? j = some r ∧ r.src = src ∧ r.dst = dst

theorem paired_empty : Paired {} := ⟨keyed_empty, fun _ _ _ entry => by simp at entry⟩

theorem Paired.insert (paired : ix.Paired) (keeps : (Call.insert r).KeepsPair ix) :
    (ix.insert r).1.Paired := by
  refine ⟨paired.keyed.step (.insert r), fun src dst j entry => ?_⟩
  rw [byApps_insert, Table.get?_insert] at entry
  split at entry
  · -- the entry of the inserted session's own pair
    rename_i pair
    cases entry
    simp only [Prod.mk.injEq] at pair
    exact ⟨r, by simp [get?_insert], pair.1, pair.2⟩
  · obtain ⟨old, held, src_eq, dst_eq⟩ := paired.owned src dst j entry
    by_cases replaced : r.ksid = j
    · -- the entry names the id the insert replaces, whose pair it keeps
      subst replaced
      obtain ⟨same_src, same_dst⟩ := keeps old held
      exact ⟨r, by simp [get?_insert], same_src ▸ src_eq, same_dst ▸ dst_eq⟩
    · exact ⟨old, by simp [get?_insert, replaced, held], src_eq, dst_eq⟩

theorem Paired.remove (paired : ix.Paired) (k : Ksid) : (ix.remove k).1.Paired := by
  refine ⟨paired.keyed.step (.remove k), fun src dst j entry => ?_⟩
  cases found : ix.get? k with
  | none =>
    rw [remove_of_absent found] at entry ⊢
    exact paired.owned src dst j entry
  | some removed =>
    rw [byApps_remove found] at entry
    -- the entry kept names a session still held: the removed one had at most this entry
    have kept : ix.byApps.get? (src, dst) = some j ∧ ((removed.src, removed.dst) = (src, dst) → j ≠ k) := by
      split at entry
      · rename_i named
        rw [Table.get?_erase] at entry
        split at entry
        · cases entry
        · rename_i other
          exact ⟨entry, fun same => absurd same other⟩
      · rename_i unnamed
        exact ⟨entry, fun same gone => unnamed (same ▸ gone ▸ entry)⟩
    obtain ⟨r', held, src_eq, dst_eq⟩ := paired.owned src dst j kept.1
    have other : k ≠ j := by
      rintro rfl
      rw [found] at held
      cases held
      exact kept.2 (by rw [src_eq, dst_eq]) rfl
    exact ⟨r', by simp [get?_after_remove, other, held], src_eq, dst_eq⟩

theorem Paired.step (paired : ix.Paired) {c : Call} (keeps : c.KeepsPair ix) :
    (SessionIndex.step ix c).Paired := by
  cases c with
  | insert r => exact paired.insert keeps
  | remove k => exact paired.remove k

/-! ### Runs of calls -/

theorem keyed_run (calls : List Call) : ∀ {ix : SessionIndex}, ix.Keyed → (calls.foldl step ix).Keyed := by
  induction calls with
  | nil => exact fun keyed => keyed
  | cons c rest ih => exact fun keyed => ih (keyed.step c)

theorem paired_run (calls : List Call) :
    ∀ {ix : SessionIndex}, ix.Paired → KeepsPairs ix calls → (calls.foldl step ix).Paired := by
  induction calls with
  | nil => exact fun paired _ => paired
  | cons c rest ih => exact fun paired keeps => ih (paired.step keeps.1) keeps.2

theorem replay_snoc (calls : List Call) (c : Call) : replay (calls ++ [c]) = step (replay calls) c := by
  rw [replay, List.foldl_append, List.foldl_cons, List.foldl_nil, replay]

theorem newest_pair {calls : List Call} {src dst : AppId} {r : SessionRecord}
    (last : newest calls src dst = some r) : r.src = src ∧ r.dst = dst := by
  have member := List.mem_of_getLast? last
  simpa using (List.mem_filter.mp member).2

theorem newest_insert (calls : List Call) (r : SessionRecord) (src dst : AppId) :
    newest (calls ++ [.insert r]) src dst =
      if r.src = src ∧ r.dst = dst then some r else newest calls src dst := by
  by_cases pair : r.src = src ∧ r.dst = dst
  · simp [newest, Call.inserted, pair]
  · simp [newest, Call.inserted, List.filter_append, pair]

theorem newest_remove (calls : List Call) (k : Ksid) (src dst : AppId) :
    newest (calls ++ [.remove k]) src dst = newest calls src dst := by
  simp [newest, List.filterMap_append, List.filterMap_cons, Call.inserted]

/-- The pair entry follows the session inserted last for the pair, as long as the index holds
that session. -/
theorem byApps_newest (calls : List Call) {src dst : AppId} {r : SessionRecord}
    (last : newest calls src dst = some r) (held : (replay calls).get? r.ksid = some r) :
    (replay calls).byApps.get? (src, dst) = some r.ksid := by
  induction calls using List.reverseRecOn generalizing r with
  | nil => simp [newest] at last
  | append_singleton calls c ih =>
    rw [replay_snoc] at held ⊢
    cases c with
    | insert r' =>
      rw [newest_insert] at last
      rw [step, byApps_insert, Table.get?_insert]
      split at last
      · rename_i pair
        cases last
        simp [pair.1, pair.2]
      · -- another pair: the insert did not take the id of `r`, and left its entry alone
        rename_i other
        have pair := newest_pair last
        rw [step, get?_insert] at held
        split at held
        · cases held
          exact absurd pair other
        · rw [if_neg (fun same => other (by simp_all))]
          exact ih last held
    | remove k =>
      rw [newest_remove] at last
      rw [step, get?_after_remove] at held
      split at held
      · cases held
      · rename_i apart
        have before := ih last held
        cases found : (replay calls).get? k with
        | none => rwa [step, remove_of_absent found]
        | some removed =>
          -- the remove clears the entry of the session it removes only if it names that session
          rw [step, byApps_remove found]
          split
          · rename_i named
            rw [Table.get?_erase]
            split
            · rename_i same
              rw [same, before] at named
              exact absurd (Option.some.inj named) (Ne.symm apart)
            · exact before
          · exact before

/-! ### The pair lookup -/

/-- Over any run of calls, a pair lookup finds a session the index holds under its own id, and
it finds the session inserted last for the pair for as long as the index holds it. Over runs in
which no insert moves a held id to another pair, it finds only sessions of the pair looked up. -/
theorem pair_lookup_held_and_newest (calls : List Call) (src dst : AppId) :
    (∀ r, (replay calls).byPair? src dst = some r →
      (replay calls).get? r.ksid = some r ∧ (KeepsPairs {} calls → r.src = src ∧ r.dst = dst)) ∧
    (∀ r, newest calls src dst = some r → (replay calls).get? r.ksid = some r →
      (replay calls).byPair? src dst = some r) := by
  constructor
  · intro r found
    obtain ⟨entry, held⟩ := byPair?_filed (keyed_run calls keyed_empty) found
    refine ⟨held, fun keeps => ?_⟩
    obtain ⟨r', held', src_eq, dst_eq⟩ := (paired_run calls paired_empty keeps).owned src dst r.ksid entry
    rw [held] at held'
    cases held'
    exact ⟨src_eq, dst_eq⟩
  · intro r last held
    have entry := byApps_newest calls last held
    simp only [byPair?, entry, Option.bind_eq_bind, Option.bind_some]
    exact held

/-- Two sessions of one pair of applications, the second registered after the first. -/
def staleRun : List Call :=
  let session (ksid : Nat) : SessionRecord :=
    { ksid := ⟨ksid⟩, src := ⟨10⟩, dst := ⟨20⟩, kmeSrc := ⟨1⟩, kmeDst := ⟨2⟩, qos := ⟨256, 1000⟩,
      path := [⟨1⟩, ⟨2⟩], createdAt := 0 }
  [.insert (session 1), .insert (session 2), .remove ⟨1⟩]

/-- Removing the older session of a pair leaves the pair entry of the newer one. -/
theorem pair_lookup_held_and_newest_after_stale_remove :
    ∃ r, newest staleRun ⟨10⟩ ⟨20⟩ = some r ∧ r.ksid = ⟨2⟩ ∧
      (replay staleRun).byPair? ⟨10⟩ ⟨20⟩ = some r ∧ r.src = ⟨10⟩ ∧ r.dst = ⟨20⟩ := by
  obtain ⟨r, last⟩ : ∃ r, newest staleRun ⟨10⟩ ⟨20⟩ = some r := ⟨_, rfl⟩
  have held : (replay staleRun).get? r.ksid = some r := by
    rw [show r = _ from (Option.some.inj last).symm]
    decide
  have keeps : KeepsPairs {} staleRun := by
    simp [staleRun, KeepsPairs, Call.KeepsPair, step, get?_insert]
    simp [get?]
  have found := (pair_lookup_held_and_newest staleRun ⟨10⟩ ⟨20⟩).2 r last held
  have pair := ((pair_lookup_held_and_newest staleRun ⟨10⟩ ⟨20⟩).1 r found).2 keeps
  exact ⟨r, last, by rw [show r = _ from (Option.some.inj last).symm]; rfl, found, pair⟩

/-- A session replaced under its id by one of another pair leaves its pair entry behind: the
lookup of the old pair finds the new session. -/
theorem replaced_session_leaves_stale_pair :
    let old : SessionRecord :=
      { ksid := ⟨1⟩, src := ⟨10⟩, dst := ⟨20⟩, kmeSrc := ⟨1⟩, kmeDst := ⟨2⟩, qos := ⟨256, 1000⟩,
        path := [⟨1⟩, ⟨2⟩], createdAt := 0 }
    let new : SessionRecord := { old with src := ⟨30⟩, dst := ⟨40⟩ }
    (replay [.insert old, .insert new]).byPair? ⟨10⟩ ⟨20⟩ = some new := by
  decide

end SessionIndex

end KeyRelay
