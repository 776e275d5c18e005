import KeyRelay.Proofs.Exact
import KeyRelay.Proofs.Table

/-! How the directory pairs the two sides of a connection. A waiting registration is filed under
its own applications and side, and no two waiting registrations could pair with each other
(`Directory.Settled`); every step of the controller keeps this (`Directory.Queues`). So a
registration pairs only with the other side's waiting registration of the same quality of
service, and only while that one is younger than the time to live: the purge that opens every
registration has dropped the older ones. -/

namespace KeyRelay

namespace AppRequest

/-- Two registrations the directory would pair: the same applications, opposite sides and the
same quality of service. -/
def Pairs (p q : AppRequest) : Prop :=
  p.src = q.src ∧ p.dst = q.dst ∧ p.master ≠ q.master ∧ p.qos = q.qos

instance (p q : AppRequest) : Decidable (p.Pairs q) := inferInstanceAs (Decidable (_ ∧ _ ∧ _ ∧ _))

theorem Pairs.symm {p q : AppRequest} (paired : p.Pairs q) : q.Pairs p :=
  ⟨paired.1.symm, paired.2.1.symm, paired.2.2.1.symm, paired.2.2.2.symm⟩

theorem not_pairs_self (p : AppRequest) : ¬ p.Pairs p := fun paired => paired.2.2.1 rfl

/-- The registration a pair would take is filed under the requester's applications and the
other side. -/
theorem Pairs.key {p q : AppRequest} (paired : p.Pairs q) :
    (q.src, q.dst, q.master) = (p.src, p.dst, !p.master) := by
  obtain ⟨src, dst, side, -⟩ := paired
  cases hp : p.master <;> cases hq : q.master <;> simp_all

end AppRequest

/-- A filter whose test may fail succeeds only when every test does, and keeps what passes. -/
private theorem filterAuxM_ok {α ε : Type} {p : α → Except ε Bool} {P : α → Prop} {q : α → Bool}
    (tests : ∀ x b, p x = .ok b → P x ∧ b = q x) :
    ∀ (xs acc ys : List α), List.filterAuxM p xs acc = .ok ys →
      (∀ x ∈ xs, P x) ∧ ys = (xs.filter q).reverse ++ acc
  | [], acc, ys, ok => by
    cases ok
    exact ⟨by simp, by simp⟩
  | x :: xs, acc, ys, ok => by
    simp only [List.filterAuxM] at ok
    cases tested : p x with
    | error e =>
      rw [tested] at ok
      cases ok
    | ok b =>
      obtain ⟨holds, rfl⟩ := tests x b tested
      rw [tested] at ok
      obtain ⟨rest, kept⟩ := filterAuxM_ok tests xs _ ys ok
      refine ⟨fun y member => ?_, ?_⟩
      · rcases List.mem_cons.mp member with rfl | later
        · exact holds
        · exact rest y later
      · cases passes : q x <;> simp [kept, passes]

private theorem filterM_ok {α ε : Type} {p : α → Except ε Bool} {P : α → Prop} {q : α → Bool}
    (tests : ∀ x b, p x = .ok b → P x ∧ b = q x) {xs ys : List α} (ok : xs.filterM p = .ok ys) :
    (∀ x ∈ xs, P x) ∧ ys = xs.filter q := by
  simp only [List.filterM, bind, Except.bind] at ok
  cases aux : List.filterAuxM p xs [] with
  | error e =>
    rw [aux] at ok
    cases ok
  | ok zs =>
    rw [aux] at ok
    cases ok
    obtain ⟨holds, rfl⟩ := filterAuxM_ok tests xs [] zs aux
    exact ⟨holds, by simp⟩

namespace Directory

variable {R : Type}

/-- The waiting registrations are well kept: no applications and side are filed twice, each
registration is filed under its own applications and side, and no two of them could pair. -/
structure Settled (d : Directory R) : Prop where
  distinct : d.pending.KeysNodup
  filed : ∀ k p t, d.pending.get? k = some (p, t) → k = (p.src, p.dst, p.master)
  apart : ∀ k k' p p' t t', d.pending.get? k = some (p, t) → d.pending.get? k' = some (p', t') →
    ¬ p.Pairs p'

theorem Settled.congr {d d' : Directory R} (settled : d.Settled) (same : d'.pending = d.pending) :
    d'.Settled := by
  obtain ⟨distinct, filed, apart⟩ := settled
  exact ⟨same ▸ distinct, same ▸ filed, same ▸ apart⟩

/-- Waiting registrations that are some of a settled directory's are settled. -/
theorem Settled.sublist {d d' : Directory R} (settled : d.Settled)
    (fewer : d'.pending.entries.Sublist d.pending.entries) : d'.Settled := by
  have back : ∀ k v, d'.pending.get? k = some v → d.pending.get? k = some v := fun k v found =>
    Table.get?_of_mem settled.distinct (fewer.subset (Table.mem_of_get? found))
  refine ⟨List.Nodup.sublist (fewer.map _) settled.distinct, ?_, ?_⟩
  · intro k p t found
    exact settled.filed k p t (back k _ found)
  · intro k k' p p' t t' found found'
    exact settled.apart k k' p p' t t' (back k _ found) (back k' _ found')

/-- A settled directory files a registration again, at any instant, under its own key. -/
theorem Settled.refile {d d' : Directory R} (settled : d.Settled) {k : AppId × AppId × Bool}
    {c : AppRequest} {t u : Nat} (found : d.pending.get? k = some (c, t))
    (refiled : d'.pending = (d.pending.erase k).insert k (c, u)) : d'.Settled := by
  have key := settled.filed k c t found
  -- every entry of the new table is the refiled one or an old one under another key
  have back : ∀ j p u, d'.pending.get? j = some (p, u) →
      (j = k ∧ p = c) ∨ (j ≠ k ∧ d.pending.get? j = some (p, u)) := by
    intro j p u hit
    rw [refiled, Table.get?_insert, Table.get?_erase] at hit
    by_cases same : k = j
    · simp only [same, if_true, Option.some.injEq, Prod.mk.injEq] at hit
      exact .inl ⟨same.symm, hit.1.symm⟩
    · simp only [same, if_false] at hit
      exact .inr ⟨Ne.symm same, hit⟩
  refine ⟨refiled ▸ Table.keysNodup_insert (Table.keysNodup_erase settled.distinct k) k _, ?_, ?_⟩
  · intro j p u hit
    rcases back j p u hit with ⟨rfl, rfl⟩ | ⟨-, old⟩
    · exact key
    · exact settled.filed j p u old
  · intro j j' p p' u u' hit hit'
    rcases back j p u hit with ⟨rfl, rfl⟩ | ⟨-, old⟩ <;>
      rcases back j' p' u' hit' with ⟨rfl, rfl⟩ | ⟨-, old'⟩
    · exact AppRequest.not_pairs_self _
    · exact settled.apart _ _ _ _ _ _ found old'
    · exact settled.apart _ _ _ _ _ _ old found
    · exact settled.apart _ _ _ _ _ _ old old'

theorem settled_default (ttl : Nat) : ({ pendingTtlMs := ttl } : Directory R).Settled where
  distinct := List.nodup_nil
  filed := by simp
  apart := by simp

/-- A purge that does not stop keeps exactly the registrations younger than the time to live,
none of them from after `now`, and changes nothing else. -/
theorem purgeExpired_pending {d d' : Directory R} {now n : Nat} (ok : d.purgeExpired now = .ok (n, d')) :
    (∀ e ∈ d.pending.entries, e.2.2 ≤ now) ∧
      d'.pending = ⟨d.pending.entries.filter fun e => now - e.2.2 < d.pendingTtlMs⟩ ∧
      d'.pendingTtlMs = d.pendingTtlMs := by
  simp only [purgeExpired, bind, Except.bind, pure, Except.pure] at ok
  split at ok
  · cases ok
  · rename_i entries kept
    cases ok
    have purged := filterM_ok (P := fun e => e.2.2 ≤ now)
      (q := fun e => decide (now - e.2.2 < d.pendingTtlMs)) ?tests kept
    · obtain ⟨early, rfl⟩ := purged
      exact ⟨early, rfl, rfl⟩
    · intro e b tested
      by_cases early : e.2.2 ≤ now
      · simp only [CapacityWindow.elapsed, early, if_true] at tested
        cases tested
        exact ⟨early, rfl⟩
      · simp only [CapacityWindow.elapsed, early, if_false] at tested
        cases tested

theorem Settled.purgeExpired {d d' : Directory R} {now n : Nat} (settled : d.Settled)
    (ok : d.purgeExpired now = .ok (n, d')) : d'.Settled := by
  obtain ⟨-, pending, -⟩ := purgeExpired_pending ok
  exact settled.sublist (pending ▸ List.filter_sublist)

/-- What a registration does: after the purge at `now`, the other side's registration of the
same quality of service, if one waits, pairs with it and is taken out; else the registration
waits, filed at `now`. -/
theorem register_cases {d d' : Directory R} {r : AppRequest} {now : Nat} {m : Matched}
    (ok : d.register r now = .ok (m, d')) :
    ∃ n d₁, d.purgeExpired now = .ok (n, d₁) ∧
      ((∃ p t, d₁.pending.get? (r.src, r.dst, !r.master) = some (p, t) ∧ p.qos = r.qos ∧
          m = (if r.master then .pair r p else .pair p r) ∧
          d' = { d₁ with pending := d₁.pending.erase (r.src, r.dst, !r.master) }) ∨
        ((∀ p t, d₁.pending.get? (r.src, r.dst, !r.master) = some (p, t) → p.qos ≠ r.qos) ∧
          m = .pending ∧ d' = d₁.requeue r now)) := by
  unfold register at ok
  cases purged : d.purgeExpired now with
  | error a => simp [purged, bind, Except.bind] at ok
  | ok nd =>
    obtain ⟨n, d₁⟩ := nd
    simp only [purged, bind, Except.bind, pure, Except.pure] at ok
    refine ⟨n, d₁, rfl, ?_⟩
    cases waiting : d₁.pending.get? (r.src, r.dst, !r.master) with
    | none =>
      simp only [waiting, Except.ok.injEq, Prod.mk.injEq] at ok
      exact .inr ⟨fun p t found => (by cases found), ok.1.symm, ok.2.symm⟩
    | some pt =>
      obtain ⟨p, t⟩ := pt
      simp only [waiting] at ok
      by_cases same : p.qos = r.qos
      · simp only [same, if_true, Except.ok.injEq, Prod.mk.injEq] at ok
        exact .inl ⟨p, t, rfl, same, ok.1.symm, ok.2.symm⟩
      · simp only [same, if_false, Except.ok.injEq, Prod.mk.injEq] at ok
        refine .inr ⟨fun p' t' found => ?_, ok.1.symm, ok.2.symm⟩
        cases found
        exact same

/-- A registration keeps the waiting registrations settled. -/
theorem Settled.register {d d' : Directory R} {r : AppRequest} {now : Nat} {m : Matched}
    (settled : d.Settled) (ok : d.register r now = .ok (m, d')) : d'.Settled := by
  obtain ⟨n, d₁, purged, paired | waits⟩ := register_cases ok
  all_goals have settled₁ := settled.purgeExpired purged
  · obtain ⟨p, t, -, -, -, rfl⟩ := paired
    exact settled₁.sublist List.filter_sublist
  · obtain ⟨unlike, -, rfl⟩ := waits
    -- the new registration pairs with no waiting one: that one would be the other side's,
    -- whose quality of service differs
    have lone : ∀ j p t, d₁.pending.get? j = some (p, t) → ¬ r.Pairs p := by
      intro j p t found paired
      have filed := settled₁.filed j p t found
      rw [paired.key] at filed
      subst filed
      exact unlike p t found paired.2.2.2.symm
    refine ⟨Table.keysNodup_insert settled₁.distinct _ _, ?_, ?_⟩
    · intro j p t found
      simp only [requeue, Table.get?_insert] at found
      split at found
      · rename_i same
        cases found
        exact same.symm
      · exact settled₁.filed j p t found
    · intro j j' p p' t t' found found'
      simp only [requeue, Table.get?_insert] at found found'
      split at found <;> split at found'
      · cases found
        cases found'
        exact AppRequest.not_pairs_self r
      · cases found
        exact lone j' p' t' found'
      · cases found'
        exact fun paired => lone j p t found paired.symm
      · exact settled₁.apart j j' p p' t t' found found'

/-- A registration pairs only with a registration that waited, on the other side of the same
applications, with the same quality of service, filed no later than `now` and younger than the
time to live. -/
theorem register_pair {d d' : Directory R} {r master slave : AppRequest} {now : Nat}
    (settled : d.Settled) (ok : d.register r now = .ok (.pair master slave, d')) :
    ∃ p t, d.pending.get? (r.src, r.dst, !r.master) = some (p, t) ∧ r.Pairs p ∧
      (if r.master then (r, p) else (p, r)) = (master, slave) ∧ t ≤ now ∧ now - t < d.pendingTtlMs := by
  obtain ⟨n, d₁, purged, paired | waits⟩ := register_cases ok
  · obtain ⟨p, t, found, same, matched, -⟩ := paired
    obtain ⟨early, pending, -⟩ := purgeExpired_pending purged
    have member := Table.mem_of_get? found
    rw [pending] at member
    obtain ⟨inside, young⟩ := List.mem_filter.mp member
    have filed := settled.filed _ p t (Table.get?_of_mem settled.distinct inside)
    simp only [Prod.mk.injEq] at filed
    refine ⟨p, t, Table.get?_of_mem settled.distinct inside,
      ⟨filed.1, filed.2.1, ?_, same.symm⟩, ?_, early _ inside, by simpa using young⟩
    · cases hr : r.master <;> simp_all
    · cases hr : r.master <;> simp_all
  · obtain ⟨-, unmatched, -⟩ := waits
    cases unmatched

/-- The other side put back after a pair found no path is filed again, at `now`, under its own
key. -/
theorem Settled.requeue {d d' : Directory R} {r master slave : AppRequest} {now : Nat}
    (settled : d.Settled) (ok : d.register r now = .ok (.pair master slave, d')) :
    (d'.requeue (if r.master then slave else master) now).Settled := by
  obtain ⟨n, d₁, purged, paired | waits⟩ := register_cases ok
  · obtain ⟨p, t, found, -, matched, rfl⟩ := paired
    have settled₁ := settled.purgeExpired purged
    have filed := settled₁.filed _ p t found
    -- the counterpart put back is the one that was taken out
    have back : (if r.master then slave else master) = p := by
      cases hr : r.master <;> simp only [hr, if_true, if_false, Bool.false_eq_true, Matched.pair.injEq] at matched ⊢
      · exact matched.1
      · exact matched.2
    refine settled₁.refile (u := now) found ?_
    simp only [Directory.requeue, back]
    rw [← filed]
  · obtain ⟨-, unmatched, -⟩ := waits
    cases unmatched

/-- What a step of the controller does to the waiting registrations: nothing, or the
registration of one side at the clock, possibly followed by the other side waiting again. -/
inductive Queues (d₀ : Directory R) (now : Nat) (d : Directory R) : Prop
  | keep (pending : d.pending = d₀.pending) (ttl : d.pendingTtlMs = d₀.pendingTtlMs)
  | register {r : AppRequest} {m : Matched} {d₁ : Directory R} (ok : d₀.register r now = .ok (m, d₁))
      (pending : d.pending = d₁.pending) (ttl : d.pendingTtlMs = d₁.pendingTtlMs)
  | requeue {r master slave : AppRequest} {d₁ : Directory R}
      (ok : d₀.register r now = .ok (.pair master slave, d₁))
      (pending : d.pending = (d₁.requeue (if r.master then slave else master) now).pending)
      (ttl : d.pendingTtlMs = d₁.pendingTtlMs)

theorem register_ttl {d d' : Directory R} {r : AppRequest} {now : Nat} {m : Matched}
    (ok : d.register r now = .ok (m, d')) : d'.pendingTtlMs = d.pendingTtlMs := by
  obtain ⟨n, d₁, purged, paired | waits⟩ := register_cases ok
  · obtain ⟨p, t, -, -, -, rfl⟩ := paired
    exact (purgeExpired_pending purged).2.2
  · obtain ⟨-, -, rfl⟩ := waits
    exact (purgeExpired_pending purged).2.2

/-- Every step keeps the waiting registrations settled and the time to live as it was. -/
theorem Queues.settled {d₀ d : Directory R} {now : Nat} (queues : Queues d₀ now d)
    (settled : d₀.Settled) : d.Settled ∧ d.pendingTtlMs = d₀.pendingTtlMs := by
  cases queues with
  | keep pending ttl => exact ⟨settled.congr pending, ttl⟩
  | register ok pending ttl => exact ⟨(settled.register ok).congr pending, ttl.trans (register_ttl ok)⟩
  | requeue ok pending ttl => exact ⟨(settled.requeue ok).congr pending, ttl.trans (register_ttl ok)⟩

theorem close_pending (d : Directory R) (ksid : Ksid) :
    (d.close ksid).2.pending = d.pending ∧ (d.close ksid).2.pendingTtlMs = d.pendingTtlMs := by
  unfold close
  generalize d.sessions.remove ksid = removed
  obtain ⟨sessions, _ | r⟩ := removed <;> exact ⟨rfl, rfl⟩

end Directory

namespace Controller

variable {R : Type} [RateArith R]

section Requests

variable (s₀ : Env × Controller R)

/-- The directory after a step, seen from the state `s₀` the step started from. -/
abbrev Queued (s : Env × Controller R) : Prop := Directory.Queues s₀.2.directory s₀.1.now s.2.directory

omit [RateArith R] in
theorem registerKme_queued (address : String) :
    Lands (fun _ => Queued s₀) (Queued s₀) (registerKme address s₀) := by
  simp only [registerKme, draw_bind, change_bind, pure_run, Lands]
  exact .keep rfl rfl

/-- Reports of links touch the graph and the half links only. -/
theorem newLink_queued (link : LinkId) (kme : KmeId) (rate : R) :
    Lands (fun _ => Queued s₀) (Queued s₀) (newLink link kme rate s₀) := by
  simp only [newLink, current_bind]
  split
  · exact .keep rfl rfl
  simp only [env_bind]
  cases ends : s₀.2.graph.linkEnds link with
  | some ab =>
    obtain ⟨a, b⟩ := ab
    simp only
    split
    · exact .keep rfl rfl
    cases sampled : s₀.2.graph.record link s₀.1.now rate with
    | error x => exact lands_error _ x (.keep rfl rfl)
    | ok g =>
      simp only [lift_ok_bind, change_bind, pure_run, Lands]
      exact .keep rfl rfl
  | none =>
    simp only
    cases halves : s₀.2.halfLinks.get? link with
    | some half =>
      simp only
      split
      · cases added : s₀.2.graph.addEdge link half.kme kme s₀.1.now (RateArith.least rate half.rate) with
        | error x => exact lands_error _ x (.keep rfl rfl)
        | ok g =>
          simp only [lift_ok_bind, change_bind, current_bind, pure_run, Lands]
          exact .keep rfl rfl
      · simp only [change_bind, pure_run, Lands]
        exact .keep rfl rfl
    | none =>
      simp only [change_bind, pure_run, Lands]
      exact .keep rfl rfl

omit [RateArith R] in
theorem updateLink_queued (link : LinkId) (rate : R) :
    Lands (fun _ => Queued s₀) (Queued s₀) (updateLink link rate s₀) := by
  simp only [updateLink, current_bind]
  cases halves : s₀.2.halfLinks.get? link with
  | some half =>
    simp only [change_bind, pure_run, Lands]
    exact .keep rfl rfl
  | none =>
    simp only [env_bind]
    cases sampled : s₀.2.graph.record link s₀.1.now rate with
    | error x => exact lands_error _ x (.keep rfl rfl)
    | ok g =>
      simp only [lift_ok_bind, change_bind, pure_run, Lands]
      exact .keep rfl rfl

/-- A registration registers at the clock; when the pair it makes finds no path, the other side
waits again. -/
theorem registerApp_queued (r : AppRequest) :
    Lands (fun _ => Queued s₀) (Queued s₀) (registerApp r s₀) := by
  simp only [registerApp, current_bind]
  split
  · exact .keep rfl rfl
  simp only [env_bind]
  cases registered : s₀.2.directory.register r s₀.1.now with
  | error a => exact lands_error _ (.abort a) (.keep rfl rfl)
  | ok md =>
    obtain ⟨matched, d⟩ := md
    simp only [Halt.ofAbort, lift_ok_bind, change_bind]
    cases matched with
    | pending =>
      simp only [pure_run, Lands]
      exact .register registered rfl rfl
    | pair master slave =>
      simp only
      cases found : s₀.2.graph.findPath master.kme slave.kme r.qos.rate
          (s₀.2.config.policy.overhead r.qos.rate s₀.2.config.prefetchKeys) s₀.1.now with
      | error x =>
        cases x with
        | abort a => simp only [throw_bind, Lands]
        | fault f =>
          simp only [change_bind, fail_bind, Lands]
          exact .requeue registered rfl rfl
      | ok res =>
        simp only [pure_bind, change_bind, draw_bind, env_bind, pure_run, Lands]
        exact .register registered rfl rfl

theorem closeConnection_queued (ksid : Ksid) :
    Lands (fun _ => Queued s₀) (Queued s₀) (closeConnection ksid s₀) := by
  simp only [closeConnection, current_bind]
  cases found : s₀.2.directory.sessions.byKsid.get? ksid with
  | none =>
    rw [Directory.close_of_none found]
    exact .keep rfl rfl
  | some record =>
    obtain ⟨d', closed, -, -⟩ := Directory.close_of_some found
    have kept := Directory.close_pending s₀.2.directory ksid
    rw [closed] at kept ⊢
    simp only [change_bind, pure_run, Lands]
    exact .keep kept.1 kept.2

theorem handle_queued (request : ControllerRequest R) :
    Lands (fun _ => Queued s₀) (Queued s₀) (handle request s₀) := by
  cases request with
  | registerKme address => exact registerKme_queued s₀ address
  | newLink link kme rate _ => exact newLink_queued s₀ link kme rate
  | updateLink link rate => exact updateLink_queued s₀ link rate
  | registerApp src dst kme qos master => exact registerApp_queued s₀ ⟨src, dst, kme, qos, master⟩
  | closeConnection ksid => exact closeConnection_queued s₀ ksid

theorem abortSession_queued (ksid : Ksid) :
    Lands (fun _ => Queued s₀) (Queued s₀) (abortSession ksid s₀) := by
  simp only [abortSession, current_bind]
  have kept := Directory.close_pending s₀.2.directory ksid
  cases found : s₀.2.directory.sessions.byKsid.get? ksid with
  | none =>
    simp only [Directory.close_of_none found, pure_run, Lands]
    exact .keep rfl rfl
  | some record =>
    obtain ⟨d', closed, -, -⟩ := Directory.close_of_some found
    rw [closed] at kept ⊢
    simp only [change_run, Lands]
    exact .keep kept.1 kept.2

end Requests

/-- Along every run, the waiting registrations stay settled and the time to live stays that of
the start. -/
theorem Run.settled {guard : Env × Controller R → Prop} {start s : Env × Controller R}
    (run : Run guard start s) (settled : start.2.directory.Settled) :
    s.2.directory.Settled ∧ s.2.directory.pendingTtlMs = start.2.directory.pendingTtlMs := by
  induction run with
  | start => exact ⟨settled, rfl⟩
  | handle request _ _ ended before =>
    obtain ⟨settled', ttl⟩ := (Lands.ends (handle_queued _ request) ended).settled before.1
    exact ⟨settled', ttl.trans before.2⟩
  | abort ksid _ ended before =>
    obtain ⟨settled', ttl⟩ := (Lands.ends (abortSession_queued _ ksid) ended).settled before.1
    exact ⟨settled', ttl.trans before.2⟩
  | advance _ _ before => exact before

/-- Registration matching. Along every run of a controller, no two waiting registrations could
pair with each other; and when a registration pairs, as `registerApp` asks the directory at the
clock, its counterpart is the registration waiting under the same applications and the other
side, with the same quality of service, filed at an instant no later than the clock and less
than the configured time to live before it. An older registration is never paired: the clock
never runs back along a run, so a waiting registration once as old as the time to live stays
that old. -/
theorem registrations_pair_live_counterparts {guard : Env × Controller R → Prop}
    {config : ControllerConfig} {c : Controller R} {e : Env} {s : Env × Controller R}
    (created : create config = .ok c) (run : Run guard (e, c) s) :
    (∀ k k' p p' t t', s.2.directory.pending.get? k = some (p, t) →
      s.2.directory.pending.get? k' = some (p', t') → ¬ p.Pairs p') ∧
    ∀ r master slave d, s.2.directory.register r s.1.now = .ok (.pair master slave, d) →
      ∃ p t, s.2.directory.pending.get? (r.src, r.dst, !r.master) = some (p, t) ∧ r.Pairs p ∧
        (if r.master then (r, p) else (p, r)) = (master, slave) ∧
        t ≤ s.1.now ∧ s.1.now - t < config.pendingTtlMs := by
  have fresh : c.directory.Settled ∧ c.directory.pendingTtlMs = config.pendingTtlMs := by
    unfold create at created
    split at created
    · cases created
    · cases created
      exact ⟨Directory.settled_default _, rfl⟩
  obtain ⟨settled, ttl⟩ := run.settled fresh.1
  refine ⟨settled.apart, fun r master slave d paired => ?_⟩
  obtain ⟨p, t, found, pairs, matched, early, young⟩ := Directory.register_pair settled paired
  rw [ttl, fresh.2] at young
  exact ⟨p, t, found, pairs, matched, early, young⟩

/-- A run of a fresh controller where one side of a connection registers and waits. -/
theorem registrations_pair_live_counterparts_one_waiting :
    ∃ (c : Controller ℚ) (s : Env × Controller ℚ), create {} = .ok c ∧
      Run (fun _ => True) (default, c) s ∧ s.2.directory.pendingLen = 1 ∧
      ((∀ k k' p p' t t', s.2.directory.pending.get? k = some (p, t) →
        s.2.directory.pending.get? k' = some (p', t') → ¬ p.Pairs p') ∧
      ∀ r master slave d, s.2.directory.register r s.1.now = .ok (.pair master slave, d) →
        ∃ p t, s.2.directory.pending.get? (r.src, r.dst, !r.master) = some (p, t) ∧ r.Pairs p ∧
          (if r.master then (r, p) else (p, r)) = (master, slave) ∧
          t ≤ s.1.now ∧ s.1.now - t < ControllerConfig.pendingTtlMs {}) := by
  have run : Run (fun _ => True) (default, (create {} : Except Fault (Controller ℚ)).toOption.get!) _ :=
    .handle (.registerApp ⟨10⟩ ⟨11⟩ ⟨1⟩ ⟨256, 1000⟩ false)
      (.handle (.registerKme "a") .start trivial rfl) trivial rfl
  exact ⟨_, _, rfl, run, rfl, registrations_pair_live_counterparts rfl run⟩

end Controller

end KeyRelay
