import KeyRelay.Rate
import Mathlib

/-! The capacity window against its one-line reference. Samples recorded at instants that never
go back, then read at an instant no earlier than the last, give the least rate, in recording
order, of the last `maxSamples` samples still live, or zero when none is.

The window prunes only when it records, relative to the new sample, and then drops its oldest
sample when full, while the estimate filters again when it reads. The invariant that carries the
refinement (`Tracks`) is that the last `maxSamples` samples recorded are the window's samples
after some that a later sample has already aged out; `Tracks.record` is its step and
`recordAll_tracks` its run. The window reserves room for all of its samples when it is made, so
a count of samples whose buffer exceeds the largest allocation stops the program there. Main
statement: `CapacityWindow.window_matches_reference`. -/

namespace KeyRelay

namespace CapacityWindow

variable {R : Type}

/-- Records samples one after the other. -/
def recordAll (w : CapacityWindow R) (history : List (Nat × R)) : Except Abort (CapacityWindow R) :=
  history.foldlM (fun w s => w.record s.1 s.2) w

/-- The least rate of samples, folding in order; zero for none. -/
def lowest [RateArith R] : List (Nat × R) → R
  | [] => 0
  | s :: rest => rest.foldl (fun acc s => RateArith.least acc s.2) s.2

/-- The last `n` samples of a history. -/
def lastOf (n : Nat) (history : List (Nat × R)) : List (Nat × R) := history.drop (history.length - n)

/-- The reference estimate: the least rate, in recording order, of the last `maxSamples` samples
recorded that are live at `now`, or zero when none is. -/
def reference [RateArith R] (span maxSamples now : Nat) (history : List (Nat × R)) : R :=
  lowest ((lastOf maxSamples history).filter fun s => now - s.1 < span)

/-! ### One call at a time -/

theorem filterAuxM_ok {α ε : Type} {p : α → Except ε Bool} {q : α → Bool} {as : List α}
    (each : ∀ a ∈ as, p a = .ok (q a)) (acc : List α) :
    List.filterAuxM p as acc = .ok ((as.filter q).reverse ++ acc) := by
  induction as generalizing acc with
  | nil => rfl
  | cons a rest ih =>
    have first := each a List.mem_cons_self
    have later := ih (fun b member => each b (List.mem_cons_of_mem _ member))
    simp only [List.filterAuxM, bind, Except.bind, first]
    cases kept : q a <;> simp [later, kept]

theorem filterM_ok {α ε : Type} {p : α → Except ε Bool} {q : α → Bool} {as : List α}
    (each : ∀ a ∈ as, p a = .ok (q a)) : as.filterM p = .ok (as.filter q) := by
  simp only [List.filterM, bind, Except.bind, filterAuxM_ok each, List.append_nil]
  simp [pure, Except.pure]

theorem elapsed_of_le {now t : Nat} (early : t ≤ now) : elapsed now t = .ok (now - t) := by
  simp [elapsed, early]

/-- Pruning at an instant no earlier than any sample drops exactly the aged-out front. -/
theorem prune_eq {now span : Nat} {samples : List (Nat × R)} (early : ∀ s ∈ samples, s.1 ≤ now) :
    prune now span samples = .ok (samples.dropWhile fun s => span ≤ now - s.1) := by
  induction samples with
  | nil => rfl
  | cons s rest ih =>
    have first := early s List.mem_cons_self
    simp only [prune, bind, Except.bind, elapsed_of_le first, pure, Except.pure, List.dropWhile_cons]
    by_cases live : now - s.1 < span
    · simp [live, Nat.not_le.mpr live]
    · simp only [live, if_false, decide_eq_true (Nat.le_of_not_lt live)]
      exact ih fun t member => early t (List.mem_cons_of_mem _ member)

/-- Reading at an instant no earlier than any sample gives the least live rate. -/
theorem estimate_eq [RateArith R] {w : CapacityWindow R} {now : Nat} (early : ∀ s ∈ w.samples, s.1 ≤ now) :
    w.estimate now = .ok (lowest (w.samples.filter fun s => now - s.1 < w.span)) := by
  unfold estimate
  rw [filterM_ok (q := fun s => decide (now - s.1 < w.span)) fun s member => ?live]
  · cases w.samples.filter fun s => now - s.1 < w.span <;> rfl
  case live =>
    rcases s with ⟨t, r⟩
    have : t ≤ now := early _ member
    simp only [elapsed_of_le this]
    rfl

theorem record_eq {w : CapacityWindow R} {t : Nat} {rate : R} (early : ∀ s ∈ w.samples, s.1 ≤ t) :
    w.record t rate = .ok { w with samples :=
      (let live := w.samples.dropWhile fun s => w.span ≤ t - s.1
       if live.length = w.maxSamples then live.drop 1 else live) ++ [(t, rate)] } := by
  unfold record
  simp only [bind, Except.bind, prune_eq early]
  rfl

/-! ### The last samples of a growing history -/

theorem lastOf_length_le (n : Nat) (history : List (Nat × R)) : (lastOf n history).length ≤ n := by
  simp [lastOf]
  omega

theorem lastOf_subset {n : Nat} {history : List (Nat × R)} {s : Nat × R} (member : s ∈ lastOf n history) :
    s ∈ history :=
  List.mem_of_mem_drop member

/-- One more sample: the last `n` lose their oldest when there were `n` of them. -/
theorem lastOf_append {n : Nat} (positive : 1 ≤ n) (history : List (Nat × R)) (x : Nat × R) :
    lastOf n (history ++ [x]) =
      (if (lastOf n history).length = n then (lastOf n history).drop 1 else lastOf n history) ++ [x] := by
  unfold lastOf
  simp only [List.length_drop, List.length_append, List.length_singleton]
  split
  · rename_i full
    rw [List.drop_drop, show history.length + 1 - n = history.length - n + 1 by omega,
      List.drop_append_of_le_length (by omega)]
  · rw [show history.length + 1 - n = 0 by omega, show history.length - n = 0 by omega]
    rfl

/-- Cutting the oldest of a full list, and of its back part when that is full, leaves the back
part after a part of the front. -/
theorem cut_oldest {n : Nat} {front back : List (Nat × R)} (within : (front ++ back).length ≤ n) :
    ∃ front', (∀ a ∈ front', a ∈ front) ∧
      (if (front ++ back).length = n then (front ++ back).drop 1 else front ++ back) =
        front' ++ (if back.length = n then back.drop 1 else back) := by
  simp only [List.length_append] at within ⊢
  by_cases full : front.length + back.length = n
  · by_cases alone : back.length = n
    · have : front = [] := List.eq_nil_of_length_eq_zero (by omega)
      subst this
      exact ⟨[], by simp, by simp [alone]⟩
    · refine ⟨front.drop 1, fun a member => List.mem_of_mem_drop member, ?_⟩
      rw [if_pos full, if_neg alone, List.drop_append_of_le_length (by omega)]
  · have short : back.length ≠ n := by omega
    exact ⟨front, fun _ member => member, by rw [if_neg full, if_neg short]⟩

/-! ### The invariant and its step -/

/-- The window tracks a history: the last `maxSamples` samples recorded are its samples after
some that a later sample of the history has aged out. -/
structure Tracks (w : CapacityWindow R) (history : List (Nat × R)) : Prop where
  recent : ∃ aged, lastOf w.maxSamples history = aged ++ w.samples ∧
    ∀ a ∈ aged, ∃ s ∈ history, w.span ≤ s.1 - a.1

theorem Tracks.mem {w : CapacityWindow R} {history : List (Nat × R)} (tracks : Tracks w history)
    {s : Nat × R} (member : s ∈ w.samples) : s ∈ history := by
  obtain ⟨aged, last, -⟩ := tracks.recent
  exact lastOf_subset (last ▸ List.mem_append_right aged member)

theorem tracks_start {w : CapacityWindow R} (empty : w.samples = []) : Tracks w [] :=
  ⟨⟨[], by simp [lastOf, empty], by simp⟩⟩

/-- Recording a sample no earlier than any recorded keeps the window tracking the history. -/
theorem Tracks.record {w : CapacityWindow R} {history : List (Nat × R)} (tracks : Tracks w history)
    (positive : 1 ≤ w.maxSamples) {t : Nat} {rate : R} (later : ∀ s ∈ history, s.1 ≤ t) :
    ∃ w', w.record t rate = .ok w' ∧ Tracks w' (history ++ [(t, rate)]) ∧
      w'.span = w.span ∧ w'.maxSamples = w.maxSamples := by
  obtain ⟨aged, last, old⟩ := tracks.recent
  have early : ∀ s ∈ w.samples, s.1 ≤ t := fun s member => later s (tracks.mem member)
  refine ⟨_, record_eq early, ⟨?_⟩, rfl, rfl⟩
  -- the front pruned now was aged out by the new sample
  set pruned := w.samples.takeWhile fun s => w.span ≤ t - s.1
  set live := w.samples.dropWhile fun s => w.span ≤ t - s.1
  have split : lastOf w.maxSamples history = (aged ++ pruned) ++ live := by
    rw [last, List.append_assoc, List.takeWhile_append_dropWhile]
  obtain ⟨front', within, cut⟩ := cut_oldest (split ▸ lastOf_length_le w.maxSamples history)
  refine ⟨front', ?_, fun a member => ?_⟩
  · rw [lastOf_append positive, split, cut, List.append_assoc]
  · rcases List.mem_append.mp (within a member) with before | now
    · obtain ⟨s, recorded, aging⟩ := old a before
      exact ⟨s, List.mem_append_left _ recorded, aging⟩
    · refine ⟨(t, rate), List.mem_append_right _ List.mem_cons_self, ?_⟩
      have := List.all_eq_true.mp List.all_takeWhile a now
      simpa using this

/-- A run of records from an empty window tracks what it recorded. -/
theorem recordAll_tracks {w : CapacityWindow R} (empty : w.samples = []) (positive : 1 ≤ w.maxSamples)
    (history : List (Nat × R)) (sorted : history.Pairwise fun a b => a.1 ≤ b.1) :
    ∃ w', w.recordAll history = .ok w' ∧ Tracks w' history ∧ w'.span = w.span ∧ w'.maxSamples = w.maxSamples := by
  induction history using List.reverseRecOn with
  | nil => exact ⟨w, rfl, tracks_start empty, rfl, rfl⟩
  | append_singleton history x ih =>
    rw [List.pairwise_append] at sorted
    obtain ⟨w₁, run, tracks, span, count⟩ := ih sorted.1
    have later : ∀ s ∈ history, s.1 ≤ x.1 := fun s member => sorted.2.2 s member x List.mem_cons_self
    obtain ⟨w₂, step, tracks', span', count'⟩ := tracks.record (count ▸ positive) later
    refine ⟨w₂, ?_, tracks', span'.trans span, count'.trans count⟩
    rw [recordAll, List.foldlM_append, ← recordAll, run]
    simp only [bind, Except.bind, List.foldlM_cons, List.foldlM_nil, step]
    rfl

/-- A tracking window reads, at an instant no earlier than any recorded, what the reference
gives. -/
theorem Tracks.estimate [RateArith R] {w : CapacityWindow R} {history : List (Nat × R)}
    (tracks : Tracks w history) {now : Nat} (late : ∀ s ∈ history, s.1 ≤ now) :
    w.estimate now = .ok (reference w.span w.maxSamples now history) := by
  obtain ⟨aged, last, old⟩ := tracks.recent
  rw [estimate_eq fun s member => late s (tracks.mem member), reference, last, List.filter_append]
  -- what aged out before `now` is not live at `now`
  have gone : aged.filter (fun s => now - s.1 < w.span) = [] := by
    refine List.filter_eq_nil_iff.mpr fun a member live => ?_
    obtain ⟨s, recorded, aging⟩ := old a member
    have := late s recorded
    simp only [decide_eq_true_eq] at live
    omega
  rw [gone, List.nil_append]

theorem le_of_getLast? {history : List (Nat × R)} (sorted : history.Pairwise fun a b => a.1 ≤ b.1)
    {now : Nat} (late : ∀ last ∈ history.getLast?, last.1 ≤ now) : ∀ s ∈ history, s.1 ≤ now := by
  rcases List.eq_nil_or_concat' history with none | ⟨init, last, rfl⟩
  · simp [none]
  · have final := late last (by simp)
    intro s member
    rcases List.mem_append.mp member with before | here
    · exact ((List.pairwise_append.mp sorted).2.2 s before last List.mem_cons_self).trans final
    · rw [List.mem_singleton.mp here]
      exact final

/-- The window matches its reference. For `maxSamples ≥ 1` samples whose buffer fits the
largest allocation, a window is made, every record of samples at instants that never go back
succeeds, and reading at an instant no earlier than the last sample gives the least live rate
of the last `maxSamples` samples recorded, in recording order, or zero. A count of samples past
the largest allocation stops the program when the window is made. -/
theorem window_matches_reference [RateArith R] (span maxSamples now : Nat) (history : List (Nat × R))
    (positive : 1 ≤ maxSamples) (sorted : history.Pairwise fun a b => a.1 ≤ b.1)
    (late : ∀ last ∈ history.getLast?, last.1 ≤ now) :
    (maxSamples * sampleBytes ≤ largestBuffer →
      ∃ w w', withCapacity span maxSamples = .ok w ∧ w.recordAll history = .ok w' ∧
        w'.estimate now = .ok (reference span maxSamples now history)) ∧
    (largestBuffer < maxSamples * sampleBytes →
      (withCapacity span maxSamples : Except Abort (CapacityWindow R)) = .error Abort.capacityOverflow) := by
  have count : max maxSamples 1 = maxSamples := by omega
  constructor
  · intro fits
    have made : (withCapacity span maxSamples : Except Abort (CapacityWindow R)) = .ok ⟨span, maxSamples, []⟩ := by
      simp only [withCapacity, count]
      rw [if_neg (by omega)]
    obtain ⟨w', run, tracks, spans, counts⟩ := recordAll_tracks (w := ⟨span, maxSamples, []⟩) rfl positive history sorted
    refine ⟨_, w', made, run, ?_⟩
    rw [tracks.estimate (le_of_getLast? sorted late), spans, counts]
  · intro exceeds
    simp only [withCapacity, count]
    rw [if_pos exceeds]

/-- Rates reported at 0, 1 and 2 seconds, the middle one low. -/
def reportsWithDrop : List (Nat × Float) := [(0, 100.0), (1000, 10.0), (2000, 100.0)]

theorem window_matches_reference_after_a_drop :
    1 ≤ 15 ∧ reportsWithDrop.Pairwise (fun a b => a.1 ≤ b.1) ∧
      (∀ last ∈ reportsWithDrop.getLast?, last.1 ≤ 16000) ∧
      (15 * sampleBytes ≤ largestBuffer →
        ∃ w w', withCapacity 15000 15 = .ok w ∧ w.recordAll reportsWithDrop = .ok w' ∧
          w'.estimate 16000 = .ok (reference 15000 15 16000 reportsWithDrop)) :=
  ⟨by decide, by decide, by decide,
    (window_matches_reference 15000 15 16000 reportsWithDrop (by decide) (by decide) (by decide)).1⟩

/-- A window of 2^59 samples is never made: its buffer would pass the largest allocation, so
making it stops the program before any sample is recorded. -/
theorem window_of_too_many_samples_stops :
    (withCapacity 1000 576460752303423488 : Except Abort (CapacityWindow Float)) = .error Abort.capacityOverflow :=
  rfl

end CapacityWindow

end KeyRelay
