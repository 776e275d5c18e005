import KeyRelay.Proofs.Ends

/-! The two ends of a link `L` with accounts in flight between them. An end that cuts spans from
`L` sends them to the other end, where they wait in an inbox until the other end follows them,
in any order. Every span ever cut from `L` is behind the cursor of its block at each end that
holds the block, or waits in that end's inbox. So as long as no end cuts from `L` while an
account of `L` waits for it, each cut starts past every span cut before, and no byte of `L` goes
to two cuts. -/

namespace KeyRelay

/-- Every span in `ledger` on a block of `L` that `k` holds is behind the block's cursor, or is
in an account of `L` that waits in `inbox` for `k` to follow. -/
def Behind (L : LinkId) (k : Kme) (ledger : List Span) (inbox : List Sync) : Prop :=
  ∀ x ∈ ledger, ∀ b, k.bare x.block = some b → b.link = L →
    min x.stop b.bytes.length ≤ b.offset ∨ ∃ σ ∈ inbox, σ.link = L ∧ x ∈ σ.consumed

namespace Behind

variable {L : LinkId} {k k' : Kme} {ledger : List Span} {inbox : List Sync}

theorem blank (blank : k.Blank) : Behind L k ledger inbox := by
  intro x _ b found
  rw [blank.bare] at found
  cases found

theorem keeps (behind : Behind L k ledger inbox) (kept : KeepsLink L k.bare k'.bare) : Behind L k' ledger inbox :=
  fun x member b found onL => behind x member b (kept _ b found onL) onL

theorem post {new : List Span} {more : List Sync} (behind : Behind L k ledger inbox)
    (covered : ∀ x ∈ new, ∃ σ ∈ more, σ.link = L ∧ x ∈ σ.consumed) : Behind L k (ledger ++ new) (inbox ++ more) := by
  intro x member b found onL
  rcases List.mem_append.mp member with old | sent
  · rcases behind x old b found onL with passed | ⟨σ, waiting, link, within⟩
    · exact .inl passed
    · exact .inr ⟨σ, List.mem_append_left _ waiting, link, within⟩
  · obtain ⟨σ, waiting, link, within⟩ := covered x sent
    exact .inr ⟨σ, List.mem_append_right _ waiting, link, within⟩

/-- An end with no account of `L` waiting cuts from `L`: every span is then behind its cursor. -/
theorem cut {C : List Span} (behind : Behind L k ledger inbox) (clear : ∀ σ ∈ inbox, σ.link ≠ L)
    (cut : Kme.Cut k L C k') : Behind L k' (ledger ++ C) inbox := by
  intro x member b' found onL
  rcases List.mem_append.mp member with old | taken
  · obtain ⟨b, was, rfl⟩ := cut.found found
    rcases behind x old b was onL with passed | ⟨σ, waiting, link, -⟩
    · exact .inl (Nat.le_trans passed (le_reach _ _ _))
    · exact absurd link (clear σ waiting)
  · obtain ⟨b, after, reached⟩ := cut.stop_le taken
    rw [found] at after
    cases after
    exact .inl (Nat.le_trans (Nat.min_le_left _ _) reached)

theorem follow {before after : List Sync} {σ : Sync} (behind : Behind L k ledger (before ++ σ :: after))
    (acked : k'.bare = fun X => (k.bare X).map fun b => { b with offset := ackReach σ.consumed X b.bytes.length b.offset }) :
    Behind L k' ledger (before ++ after) := by
  intro x member b' found onL
  rw [acked] at found
  obtain ⟨b, was, rfl⟩ := Option.map_eq_some_iff.mp found
  rcases behind x member b was onL with passed | ⟨τ, waiting, link, within⟩
  · exact .inl (Nat.le_trans passed (le_ackReach _ _ _ _))
  · simp only [List.mem_append, List.mem_cons] at waiting
    rcases waiting with early | rfl | late
    · exact .inr ⟨τ, List.mem_append_left _ early, link, within⟩
    · exact .inl (min_stop_le_ackReach within _ _)
    · exact .inr ⟨τ, List.mem_append_right _ late, link, within⟩

theorem deliver {D : List BlockId} {X : BlockId} {timestamp : Nat} {bytes : List UInt8}
    (behind : Behind L k ledger inbox) (logged : ∀ x ∈ ledger, x.block ∈ D) (fresh : X ∉ D)
    (delivered : Kme.Delivered k L X timestamp bytes k') : Behind L k' ledger inbox := by
  intro x member b found onL
  rcases delivered.found found with was | ⟨new, -⟩
  · exact behind x member b was onL
  · exact absurd (new ▸ logged x member) fresh

end Behind

/-- The two ends of a link with what lies between them: the accounts each end has yet to follow,
the ids of the blocks delivered on the link, and every span cut from the link, in order. -/
structure Pair where
  node : End → Kme
  inbox : End → List Sync
  delivered : List BlockId
  ledger : List Span

namespace Pair

/-- The runs of the two ends of link `L`, with ids `ids`. Both start blank. A block of `L` is
delivered to both together, never under an id delivered before. An end handles any request
that is not the link's own traffic and confirms `L` only with the other end, and cuts from `L`
only while no account of `L` waits in its inbox; the accounts it sends to the other end join that
end's inbox, and the spans it cuts from `L` join the ledger. An end follows the accounts in its
inbox in any order, each to a success. -/
inductive Run (L : LinkId) (ids : End → KmeId) : Pair → Prop
  | blank {node : End → Kme} : (∀ i, (node i).Blank) → Run L ids ⟨node, fun _ => [], [], []⟩
  | deliver {s : Pair} {node : End → Kme} {X : BlockId} {timestamp : Nat} {bytes : List UInt8} :
      Run L ids s → X ∉ s.delivered →
      (∀ i, ∃ e out, Kme.respond (.deliverBlock L X timestamp bytes) e (s.node i) = some (out, node i)) →
      Run L ids ⟨node, s.inbox, s.delivered ++ [X], s.ledger⟩
  | request {s : Pair} {i : End} {req : KmeRequest} {e : Env} {out : Option Plan} {k : Kme} :
      Run L ids s → req.Outside L → req.Names L (ids i.other) →
      ((∃ σ ∈ s.inbox i, σ.link = L) → ∀ σ ∈ Kme.syncsOf out, σ.link ≠ L) →
      Kme.respond req e (s.node i) = some (out, k) →
      Run L ids ⟨Function.update s.node i k,
        Function.update s.inbox i.other (s.inbox i.other ++ (Kme.syncsOf out).filter (·.target = ids i.other)),
        s.delivered, s.ledger ++ ((Kme.syncsOf out).filter (·.link = L)).flatMap Sync.consumed⟩
  | follow {s : Pair} {i : End} {before after : List Sync} {σ : Sync} {e : Env} {p : Plan} {k : Kme} :
      Run L ids s → s.inbox i = before ++ σ :: after →
      Kme.respond (.syncKeys σ.link σ.rows σ.consumed) e (s.node i) = some (some p, k) →
      Run L ids ⟨Function.update s.node i k, Function.update s.inbox i (before ++ after), s.delivered, s.ledger⟩

/-- What the runs keep: each node is an end of `L` whose companion is the other; every span of
the ledger is on a block delivered on `L`, and is behind the cursor of each end that holds its
block or waits in that end's inbox; and the spans of the ledger share no byte. -/
structure Guarded (L : LinkId) (ids : End → KmeId) (s : Pair) : Prop where
  ends : ∀ i, (s.node i).EndOf L (ids i.other) s.delivered
  logged : ∀ x ∈ s.ledger, x.block ∈ s.delivered
  behind : ∀ i, Behind L (s.node i) s.ledger (s.inbox i)
  apart : s.ledger.Pairwise Span.Apart

namespace Guarded

variable {L : LinkId} {ids : End → KmeId} {s : Pair}

theorem blank {node : End → Kme} (blank : ∀ i, (node i).Blank) : Guarded L ids ⟨node, fun _ => [], [], []⟩ where
  ends i := Kme.EndOf.blank (blank i)
  logged _ absurd := by cases absurd
  behind i := Behind.blank (blank i)
  apart := List.Pairwise.nil

theorem deliver {node : End → Kme} {X : BlockId} {timestamp : Nat} {bytes : List UInt8} (inv : Guarded L ids s)
    (fresh : X ∉ s.delivered)
    (ran : ∀ i, ∃ e out, Kme.respond (.deliverBlock L X timestamp bytes) e (s.node i) = some (out, node i)) :
    Guarded L ids ⟨node, s.inbox, s.delivered ++ [X], s.ledger⟩ where
  ends i := by
    obtain ⟨e, out, ran⟩ := ran i
    exact (inv.ends i).deliver ran
  logged x member := List.mem_append_left _ (inv.logged x member)
  behind i := by
    obtain ⟨e, out, ran⟩ := ran i
    exact (inv.behind i).deliver inv.logged fresh (Kme.respond_effect (inv.ends i).sound ran).2
  apart := inv.apart

/-- The step shared by the requests: end `i` becomes `k`, sends the accounts `sent` to the other
end and cuts the spans `new` from `L`, each of them in an account it sends. -/
theorem send {i : End} {k : Kme} {sent : List Sync} {new : List Span} (inv : Guarded L ids s)
    (here : k.EndOf L (ids i.other) s.delivered) (behind : Behind L k (s.ledger ++ new) (s.inbox i))
    (covered : ∀ x ∈ new, ∃ σ ∈ sent, σ.link = L ∧ x ∈ σ.consumed) (logged : ∀ x ∈ new, x.block ∈ s.delivered)
    (apart : ∀ x ∈ s.ledger, ∀ c ∈ new, x.Apart c) (among : new.Pairwise Span.Apart) :
    Guarded L ids ⟨Function.update s.node i k, Function.update s.inbox i.other (s.inbox i.other ++ sent),
      s.delivered, s.ledger ++ new⟩ where
  ends j := by
    rcases End.eq_or_eq_other i j with rfl | rfl
    · simpa using here
    · simpa using inv.ends i.other
  logged x member := by
    rcases List.mem_append.mp member with old | cut
    · exact inv.logged x old
    · exact logged x cut
  behind j := by
    rcases End.eq_or_eq_other i j with rfl | rfl
    · simpa using behind
    · simpa using (inv.behind i.other).post covered
  apart := List.pairwise_append.mpr ⟨inv.apart, among, apart⟩

theorem request {i : End} {req : KmeRequest} {e : Env} {out : Option Plan} {k : Kme} (inv : Guarded L ids s)
    (outside : req.Outside L) (names : req.Names L (ids i.other))
    (waits : (∃ σ ∈ s.inbox i, σ.link = L) → ∀ σ ∈ Kme.syncsOf out, σ.link ≠ L)
    (ran : Kme.respond req e (s.node i) = some (out, k)) :
    Guarded L ids ⟨Function.update s.node i k,
      Function.update s.inbox i.other (s.inbox i.other ++ (Kme.syncsOf out).filter (·.target = ids i.other)),
      s.delivered, s.ledger ++ ((Kme.syncsOf out).filter (·.link = L)).flatMap Sync.consumed⟩ := by
  have here := (inv.ends i).request outside names ran
  rcases Kme.outside_effect (inv.ends i).sound outside ran with ⟨kept, quiet⟩ | ⟨c, rows, C, syncs, partner, cut⟩
  · -- nothing cut from `L`: the ledger stays as it was
    have none : (Kme.syncsOf out).filter (·.link = L) = [] :=
      List.filter_eq_nil_iff.mpr fun σ member => by simpa using quiet σ member
    rw [none, List.flatMap_nil]
    refine inv.send here ?_ (fun _ absurd => by cases absurd)
      (fun _ absurd => by cases absurd) (fun _ _ _ absurd => by cases absurd) List.Pairwise.nil
    rw [List.append_nil]
    exact (inv.behind i).keeps kept
  · -- spans cut from `L`, sent to the other end, the companion on `L`; no account of `L` waited
    have clear : ∀ σ ∈ s.inbox i, σ.link ≠ L :=
      fun σ waiting onL => waits ⟨σ, waiting, onL⟩ _ (syncs ▸ List.mem_singleton_self _) rfl
    rw [syncs, (inv.ends i).partner c partner]
    simp only [List.filter_cons, decide_true, if_true, List.filter_nil, List.flatMap_cons, List.flatMap_nil,
      List.append_nil]
    refine inv.send here ((inv.behind i).cut clear cut) ?_ ?_ ?_ cut.pairwise_apart
    · exact fun x taken => ⟨_, List.mem_singleton_self _, rfl, taken⟩
    · intro x taken
      obtain ⟨b, was, onL⟩ := cut.span_held taken
      exact (inv.ends i).held _ b was onL
    · intro x old
      refine cut.apart_of_behind fun b was onL => ((inv.behind i) x old b was onL).resolve_right ?_
      rintro ⟨σ, waiting, link, -⟩
      exact clear σ waiting link

theorem follow {i : End} {before after : List Sync} {σ : Sync} {e : Env} {p : Plan} {k : Kme} (inv : Guarded L ids s)
    (waiting : s.inbox i = before ++ σ :: after)
    (ran : Kme.respond (.syncKeys σ.link σ.rows σ.consumed) e (s.node i) = some (some p, k)) :
    Guarded L ids ⟨Function.update s.node i k, Function.update s.inbox i (before ++ after), s.delivered, s.ledger⟩ where
  ends j := by
    rcases End.eq_or_eq_other i j with rfl | rfl
    · simpa using (inv.ends j).follow ran
    · simpa using inv.ends i.other
  logged := inv.logged
  behind j := by
    rcases End.eq_or_eq_other i j with rfl | rfl
    · have behind := inv.behind j
      rw [waiting] at behind
      simpa using behind.follow (Kme.acked_of_followed (inv.ends j).sound ran)
    · simpa using inv.behind i.other
  apart := inv.apart

end Guarded

theorem Run.guarded {L : LinkId} {ids : End → KmeId} {s : Pair} (run : s.Run L ids) : s.Guarded L ids := by
  induction run with
  | blank blank => exact Guarded.blank blank
  | deliver _ fresh ran ih => exact ih.deliver fresh ran
  | request _ outside names waits ran ih => exact ih.request outside names waits ran
  | follow _ waiting ran ih => exact ih.follow waiting ran

end Pair

end KeyRelay
