import KeyRelay.Proofs.Companion

/-! The two nodes of a session served over one link: the master's node, which keeps prefetched
keys in the clear, and the companion, which stores the rows of the keys the master cuts. A run is
any sequence of requests, each handled to its end: the master application asking for keys, the
slave application redeeming keys it was handed, and requests that touch no key, with each call
of the master's plan to the companion reaching it or not.

Through every run the companion has the row of each key the master keeps, and every row it has is
of a key handed to the master application and not yet redeemed, of a key the master keeps, or of
a key the master dropped in a request that failed: the master takes its prefetched keys out
before it cuts new ones, and a request that fails after that does not put them back. -/

namespace KeyRelay

/-- The master's and the companion's nodes of a session, with the ids of the keys handed to the
master application and not yet redeemed at the companion, and of those the master dropped
without handing them out. -/
structure DirectSession where
  master : Kme
  companion : Kme
  handed : Set KeyId
  lost : Set KeyId

namespace DirectSession

section Model

variable (r : SessionRecord)

/-- The master keeps the key of id `i` of the session in the clear. -/
def Held (σ : DirectSession) (i : KeyId) : Prop := σ.master.storage.data.Holds r.ksid i

/-- The companion has the row of the key of id `i` of the session. -/
def Rowed (σ : DirectSession) (i : KeyId) : Prop := σ.companion.storage.data.HasRow r.ksid i

/-- The ids a batch sends the companion are new to the pair: no two alike, none handed out and
none kept by the master. Identifiers come from a counter modulo `2 ^ 128`, so they repeat only
after that many draws. -/
def Fresh (σ : DirectSession) : KmeRequest → Prop
  | .syncKeys _ rows _ => (rows.map (·.keyId)).Nodup ∧ ∀ row ∈ rows, row.keyId ∉ σ.handed ∧ ¬ Held r σ row.keyId
  | _ => True

/-- One request of a run, handled to its end, with what the network makes of the master's plan. -/
inductive Step : DirectSession → DirectSession → Prop
  | masterQuiet {σ : DirectSession} {req : KmeRequest} {e : Env} {out : Option Plan} {k : Kme} (quiet : req.Quiet)
      (ran : Kme.respond req e σ.master = some (out, k)) : Step σ { σ with master := k }
  | companionQuiet {σ : DirectSession} {req : KmeRequest} {e : Env} {out : Option Plan} {k : Kme} (quiet : req.Quiet)
      (ran : Kme.respond req e σ.companion = some (out, k)) : Step σ { σ with companion := k }
  /-- The master's node fails the master application's request for keys. -/
  | refused {σ : DirectSession} {number : Nat} {size : Option Nat} {e : Env} {k : Kme}
      (ran : Kme.respond (.encKeys r.src r.dst number size) e σ.master = some (none, k)) :
      Step σ { σ with master := k, lost := σ.lost ∪ {i | Held r σ i ∧ ¬ k.storage.data.Holds r.ksid i} }
  /-- The master's node answers from the keys it kept, and calls nobody. -/
  | served {σ : DirectSession} {number : Nat} {size : Option Nat} {e : Env} {p : Plan} {k : Kme}
      (ran : Kme.respond (.encKeys r.src r.dst number size) e σ.master = some (some p, k)) (alone : p.actions = []) :
      Step σ { σ with master := k, handed := σ.handed ∪ {i | i ∈ p.handed} }
  /-- The master's node answers, and the companion stores the rows it is sent. -/
  | synced {σ : DirectSession} {number : Nat} {size : Option Nat} {e e' : Env} {p : Plan} {k : Kme} {c : KmeId}
      {req : KmeRequest} {q : Plan} {k' : Kme}
      (ran : Kme.respond (.encKeys r.src r.dst number size) e σ.master = some (some p, k))
      (call : p.actions = [.callKme c req true]) (fresh : Fresh r σ req)
      (stored : Kme.respond req e' σ.companion = some (some q, k')) :
      Step σ ⟨k, k', σ.handed ∪ {i | i ∈ p.handed}, σ.lost⟩
  /-- The call to the companion fails, refused by it or never reaching it: the master drops the
  keys it kept of the batch, and the request fails. -/
  | unsynced {σ : DirectSession} {number : Nat} {size : Option Nat} {e e₁ e₂ : Env} {p : Plan} {k k₂ : Kme} {c : KmeId}
      {req : KmeRequest} {k' : Kme}
      (ran : Kme.respond (.encKeys r.src r.dst number size) e σ.master = some (some p, k))
      (call : p.actions = [.callKme c req true])
      (missed : k' = σ.companion ∨ ∃ e', Kme.respond req e' σ.companion = some (none, k'))
      (dropped : Kme.discardKeys p.discardOnFailure (e₁, k) = .ok () (e₂, k₂)) :
      Step σ ⟨k₂, k', σ.handed, σ.lost ∪ {i | Held r σ i ∧ ¬ k₂.storage.data.Holds r.ksid i}⟩
  /-- The slave application asks the companion for keys handed to the master application. -/
  | redeemed {σ : DirectSession} {keys : List KeyId} {e : Env} {out : Option Plan} {k : Kme}
      (named : ∀ i ∈ keys, i ∈ σ.handed) (ran : Kme.respond (.decKeys r.src r.dst keys) e σ.companion = some (out, k)) :
      Step σ { σ with companion := k, handed := if out.isSome then σ.handed \ {i | i ∈ keys} else σ.handed }

/-- Both nodes serve the session: each finds it by its applications, the master as its first node
and the companion as its last, over the link they share; the master's records are steady, and each
node files its clear keys and rows under their own ids. -/
structure Serves (A B : Kme) : Prop where
  masterIndexed : A.sessions.byPair? r.src r.dst = some r
  companionIndexed : B.sessions.byPair? r.src r.dst = some r
  masterRole : r.role A.id = .ok (.direct (some B.id))
  companionRole : r.role B.id = .ok (.direct (some A.id))
  sound : A.Sound
  localsFiled : A.storage.data.LocalsFiled
  rowsFiled : B.storage.data.RowsFiled

/-- The companion has the row of every key the master keeps; every row it has is of a key handed
out and not yet redeemed, kept by the master, or lost; and no key handed out is still kept. -/
structure Live (σ : DirectSession) : Prop where
  serves : Serves r σ.master σ.companion
  backed : ∀ i, Held r σ i → Rowed r σ i
  accounted : ∀ i, Rowed r σ i → i ∈ σ.handed ∨ Held r σ i ∨ i ∈ σ.lost
  apart : ∀ i ∈ σ.handed, ¬ Held r σ i

end Model

variable {r : SessionRecord}

theorem Serves.update {A B A' B' : Kme} (serves : Serves r A B) (masterId : A'.id = A.id)
    (masterSessions : A'.sessions = A.sessions) (companionId : B'.id = B.id) (companionSessions : B'.sessions = B.sessions)
    (sound : A'.Sound) (localsFiled : A'.storage.data.LocalsFiled) (rowsFiled : B'.storage.data.RowsFiled) :
    Serves r A' B' where
  masterIndexed := by rw [masterSessions]; exact serves.masterIndexed
  companionIndexed := by rw [companionSessions]; exact serves.companionIndexed
  masterRole := by rw [masterId, companionId]; exact serves.masterRole
  companionRole := by rw [masterId, companionId]; exact serves.companionRole
  sound := sound
  localsFiled := localsFiled
  rowsFiled := rowsFiled

section Steps

variable {σ : DirectSession}

/-- The master keeps fewer keys and the companion the same rows: what the master stopped keeping
is lost. -/
theorem Live.shrink (live : Live r σ) {A' B' : Kme} (serves : Serves r A' B')
    (fewer : ∀ i, A'.storage.data.Holds r.ksid i → Held r σ i)
    (rows : ∀ i, B'.storage.data.HasRow r.ksid i ↔ Rowed r σ i) :
    Live r ⟨A', B', σ.handed, σ.lost ∪ {i | Held r σ i ∧ ¬ A'.storage.data.Holds r.ksid i}⟩ where
  serves := serves
  backed := fun i held => (rows i).mpr (live.backed i (fewer i held))
  accounted := fun i row => by
    rcases live.accounted i ((rows i).mp row) with handed | held | lost
    · exact .inl handed
    · by_cases still : A'.storage.data.Holds r.ksid i
      · exact .inr (.inl still)
      · exact .inr (.inr (.inr ⟨held, still⟩))
    · exact .inr (.inr (.inl lost))
  apart := fun i handed held => live.apart i handed (fewer i held)

theorem Live.masterQuiet (live : Live r σ) {k : Kme} (alike : Kme.Alike σ.master k) (sound : k.Sound) :
    Live r { σ with master := k } where
  serves := live.serves.update alike.1 alike.2.1 rfl rfl sound (alike.localsFiled live.serves.localsFiled)
    live.serves.rowsFiled
  backed := fun i held => live.backed i ((alike.holds r.ksid i).mp held)
  accounted := fun i row => (live.accounted i row).imp id (Or.imp_left (alike.holds r.ksid i).mpr)
  apart := fun i handed held => live.apart i handed ((alike.holds r.ksid i).mp held)

theorem Live.companionQuiet (live : Live r σ) {k : Kme} (alike : Kme.Alike σ.companion k) :
    Live r { σ with companion := k } where
  serves := live.serves.update rfl rfl alike.1 alike.2.1 live.serves.sound live.serves.localsFiled
    (alike.rowsFiled live.serves.rowsFiled)
  backed := fun i held => (alike.hasRow r.ksid i).mpr (live.backed i held)
  accounted := fun i row => live.accounted i ((alike.hasRow r.ksid i).mp row)
  apart := live.apart

theorem Live.refused (live : Live r σ) {number : Nat} {size : Option Nat} {e : Env} {k : Kme}
    (ran : Kme.respond (.encKeys r.src r.dst number size) e σ.master = some (none, k)) :
    Live r { σ with master := k, lost := σ.lost ∪ {i | Held r σ i ∧ ¬ k.storage.data.Holds r.ksid i} } := by
  obtain ⟨only, filed, fewer, -⟩ :=
    Kme.respond_encKeys_master live.serves.localsFiled live.serves.masterIndexed live.serves.masterRole ran
  exact live.shrink (live.serves.update only.id only.sessions rfl rfl (Kme.respond_sound live.serves.sound ran) filed
    live.serves.rowsFiled) (fewer rfl) fun _ => Iff.rfl

/-- The master hands out the keys `popped` it kept and `issued` new ones, and now keeps the rest
and `stored`; the companion learns the rows of the new keys, which were unknown to both. -/
theorem Live.dealt (live : Live r σ) {A' B' : Kme} (serves : Serves r A' B') {popped issued stored handed : List KeyId}
    (prefetched : ∀ i ∈ popped, Held r σ i) (given : handed = popped ++ issued)
    (holds : ∀ i, A'.storage.data.Holds r.ksid i ↔ (Held r σ i ∧ i ∉ popped) ∨ i ∈ stored)
    (rowed : ∀ i, B'.storage.data.HasRow r.ksid i ↔ Rowed r σ i ∨ i ∈ issued ++ stored)
    (novel : ∀ i ∈ issued ++ stored, i ∉ σ.handed ∧ ¬ Held r σ i) (distinct : ∀ a ∈ issued, ∀ b ∈ stored, a ≠ b) :
    Live r ⟨A', B', σ.handed ∪ {i | i ∈ handed}, σ.lost⟩ := by
  have out : ∀ i, i ∈ handed ↔ i ∈ popped ∨ i ∈ issued := fun i => by rw [given, List.mem_append]
  refine ⟨serves, fun i now => ?_, fun i row => ?_, ?_⟩
  · rcases (holds i).mp now with ⟨was, -⟩ | new
    · exact (rowed i).mpr (.inl (live.backed i was))
    · exact (rowed i).mpr (.inr (List.mem_append_right _ new))
  · rcases (rowed i).mp row with old | new
    · rcases live.accounted i old with before | was | lost
      · exact .inl (.inl before)
      · by_cases taken : i ∈ popped
        · exact .inl (.inr ((out i).mpr (.inl taken)))
        · exact .inr (.inl ((holds i).mpr (.inl ⟨was, taken⟩)))
      · exact .inr (.inr lost)
    · rcases List.mem_append.mp new with issuedNow | storedNow
      · exact .inl (.inr ((out i).mpr (.inr issuedNow)))
      · exact .inr (.inl ((holds i).mpr (.inr storedNow)))
  · -- a key kept now is one kept before and not handed out, or a new one
    rintro i (before | given) now
    · rcases (holds i).mp now with ⟨was, -⟩ | new
      · exact live.apart i before was
      · exact (novel i (List.mem_append_right _ new)).1 before
    rcases (holds i).mp now, (out i).mp given with ⟨⟨was, notPopped⟩ | new, taken | issuedNow⟩
    · exact notPopped taken
    · exact (novel i (List.mem_append_left _ issuedNow)).2 was
    · exact (novel i (List.mem_append_right _ new)).2 (prefetched i taken)
    · exact distinct i issuedNow i new rfl

theorem Live.served (live : Live r σ) {number : Nat} {size : Option Nat} {e : Env} {p : Plan} {k : Kme}
    (ran : Kme.respond (.encKeys r.src r.dst number size) e σ.master = some (some p, k)) (alone : p.actions = []) :
    Live r { σ with master := k, handed := σ.handed ∪ {i | i ∈ p.handed} } := by
  obtain ⟨only, filed, -, dealt⟩ :=
    Kme.respond_encKeys_master live.serves.localsFiled live.serves.masterIndexed live.serves.masterRole ran
  obtain ⟨popped, issued, stored, prefetched, handed, holds, plain | ⟨c, ℓ, rows, consumed, call, -⟩⟩ := dealt p rfl
  swap
  · rw [alone] at call
    cases call
  -- with no call the keys handed out are prefetched ones, and the companion's rows stay
  obtain ⟨rfl, rfl, -⟩ := plain
  exact live.dealt (live.serves.update only.id only.sessions rfl rfl (Kme.respond_sound live.serves.sound ran) filed
    live.serves.rowsFiled) prefetched handed holds (fun i => by simp [Rowed]) (fun _ none => by simp at none)
    fun _ none => by simp at none

theorem Live.synced (live : Live r σ) {number : Nat} {size : Option Nat} {e e' : Env} {p : Plan} {k : Kme}
    {c : KmeId} {req : KmeRequest} {q : Plan} {k' : Kme}
    (ran : Kme.respond (.encKeys r.src r.dst number size) e σ.master = some (some p, k))
    (call : p.actions = [.callKme c req true]) (fresh : Fresh r σ req)
    (stored : Kme.respond req e' σ.companion = some (some q, k')) :
    Live r ⟨k, k', σ.handed ∪ {i | i ∈ p.handed}, σ.lost⟩ := by
  obtain ⟨only, filed, -, dealt⟩ :=
    Kme.respond_encKeys_master live.serves.localsFiled live.serves.masterIndexed live.serves.masterRole ran
  obtain ⟨popped, issued, kept, ℓ, rows, consumed, rfl, prefetched, handed, holds, named, ids, -⟩ := (dealt p rfl).called call
  obtain ⟨onlyB, rowsFiled, -, learnt⟩ := Kme.respond_syncKeys_rows (x := r.ksid) live.serves.rowsFiled stored
  -- the rows the companion learns are those of the keys issued and of the keys kept
  have sent : ∀ i, (∃ row ∈ rows, row.ksid = r.ksid ∧ row.keyId = i) ↔ i ∈ issued ++ kept := by
    intro i
    rw [← ids, List.mem_map]
    constructor
    · rintro ⟨row, member, -, rfl⟩
      exact ⟨row, member, rfl⟩
    · rintro ⟨row, member, rfl⟩
      exact ⟨row, member, named row member, rfl⟩
  have novel : ∀ i ∈ issued ++ kept, i ∉ σ.handed ∧ ¬ Held r σ i := by
    intro i member
    rw [← ids] at member
    obtain ⟨row, inRows, rfl⟩ := List.mem_map.mp member
    exact fresh.2 row inRows
  have distinct : ∀ a ∈ issued, ∀ b ∈ kept, a ≠ b := (List.nodup_append.mp (ids ▸ fresh.1)).2.2
  exact live.dealt (live.serves.update only.id only.sessions onlyB.id onlyB.sessions
    (Kme.respond_sound live.serves.sound ran) filed rowsFiled) prefetched handed holds
    (fun i => (learnt q rfl i).trans (or_congr Iff.rfl (sent i))) novel distinct

theorem Live.unsynced (live : Live r σ) {number : Nat} {size : Option Nat} {e e₁ e₂ : Env} {p : Plan} {k k₂ : Kme}
    {c : KmeId} {req : KmeRequest} {k' : Kme}
    (ran : Kme.respond (.encKeys r.src r.dst number size) e σ.master = some (some p, k))
    (call : p.actions = [.callKme c req true])
    (missed : k' = σ.companion ∨ ∃ e', Kme.respond req e' σ.companion = some (none, k'))
    (dropped : Kme.discardKeys p.discardOnFailure (e₁, k) = .ok () (e₂, k₂)) :
    Live r ⟨k₂, k', σ.handed, σ.lost ∪ {i | Held r σ i ∧ ¬ k₂.storage.data.Holds r.ksid i}⟩ := by
  obtain ⟨only, filed, -, dealt⟩ :=
    Kme.respond_encKeys_master live.serves.localsFiled live.serves.masterIndexed live.serves.masterRole ran
  obtain ⟨popped, issued, kept, ℓ, rows, consumed, rfl, -, -, holds, -, -, discard⟩ := (dealt p rfl).called call
  rw [discard] at dropped
  obtain ⟨only₂, sound₂, filed₂, holds₂⟩ := Kme.discardKeys_run (Kme.respond_sound live.serves.sound ran) filed dropped
  -- the companion did not take the batch: its rows are as they were
  have companion : Kme.RecordsOnly σ.companion k' ∧ k'.storage.data.RowsFiled ∧
      ∀ i, k'.storage.data.HasRow r.ksid i ↔ Rowed r σ i := by
    rcases missed with rfl | ⟨e', refusedB⟩
    · exact ⟨Kme.RecordsOnly.refl _, live.serves.rowsFiled, fun _ => Iff.rfl⟩
    · obtain ⟨onlyB, rowsFiled, same, -⟩ := Kme.respond_syncKeys_rows (x := r.ksid) live.serves.rowsFiled refusedB
      exact ⟨onlyB, rowsFiled, same rfl⟩
  obtain ⟨onlyB, rowsFiled, rowed⟩ := companion
  have fewer : ∀ i, k₂.storage.data.Holds r.ksid i → Held r σ i := by
    intro i now
    obtain ⟨was, notKept⟩ := (holds₂ i).mp now
    rcases (holds i).mp was with ⟨held, -⟩ | new
    · exact held
    · exact absurd new notKept
  exact live.shrink (live.serves.update (only.trans only₂).id (only.trans only₂).sessions onlyB.id onlyB.sessions
    sound₂ filed₂ rowsFiled) fewer rowed

theorem Live.redeemed (live : Live r σ) {keys : List KeyId} {e : Env} {out : Option Plan} {k : Kme}
    (named : ∀ i ∈ keys, i ∈ σ.handed) (ran : Kme.respond (.decKeys r.src r.dst keys) e σ.companion = some (out, k)) :
    Live r { σ with companion := k, handed := if out.isSome then σ.handed \ {i | i ∈ keys} else σ.handed } := by
  obtain ⟨only, rowsFiled, fewer, kept, gone⟩ :=
    Kme.respond_decKeys_rows live.serves.rowsFiled live.serves.companionIndexed live.serves.companionRole ran
  -- the keys named were handed out, so the master keeps none of them
  have unnamed : ∀ i, Held r σ i → i ∉ keys := fun i held member => live.apart i (named i member) held
  refine ⟨live.serves.update rfl rfl only.id only.sessions live.serves.sound live.serves.localsFiled rowsFiled,
    fun i held => kept i (live.backed i held) (unnamed i held), fun i row => ?_, fun i given held => ?_⟩
  · rcases live.accounted i (fewer i row) with before | was | lost
    · left
      cases out with
      | none => exact before
      | some p => exact ⟨before, fun member => gone p rfl i member row⟩
    · exact .inr (.inl was)
    · exact .inr (.inr lost)
  · have before : i ∈ σ.handed := by
      cases out with
      | none => exact given
      | some p => exact given.1
    exact live.apart i before held

/-- Each step of a run keeps the pair live. -/
theorem Live.step {σ' : DirectSession} (live : Live r σ) (step : Step r σ σ') : Live r σ' := by
  cases step with
  | masterQuiet quiet ran => exact live.masterQuiet (Kme.respond_alike quiet ran) (Kme.respond_sound live.serves.sound ran)
  | companionQuiet quiet ran => exact live.companionQuiet (Kme.respond_alike quiet ran)
  | refused ran => exact live.refused ran
  | served ran alone => exact live.served ran alone
  | synced ran call fresh stored => exact live.synced ran call fresh stored
  | unsynced ran call missed dropped => exact live.unsynced ran call missed dropped
  | redeemed named ran => exact live.redeemed named ran

theorem Live.run {σ' : DirectSession} (live : Live r σ) (run : Relation.ReflTransGen (Step r) σ σ') : Live r σ' := by
  induction run with
  | refl => exact live
  | tail _ step ih => exact ih.step step

end Steps

end DirectSession

end KeyRelay
