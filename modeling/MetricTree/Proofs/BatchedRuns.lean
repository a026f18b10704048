import MetricTree.Proofs.Batching
import MetricTree.Proofs.CounterConservation
import MetricTree.Proofs.OtherReporters
import MetricTree.Proofs.PassTallies
import MetricTree.Proofs.ProperRuns

namespace MetricTree

theorem Scope.qualify_ne_empty {separator name : Text} (s : Scope) (named : name ≠ "") :
    s.qualify separator name ≠ "" := by
  unfold qualify
  split
  · exact named
  · intro empty
    exact named (Text.append_eq_empty_iff.mp empty).2

namespace Tree

variable {t u : Tree} {seen : Text × Observation}

/-- What is found in a proper tree of integers is regular. -/
theorem Visit.regular {found : Option (Text × Observation)} (visit : t.Visit found u) (proper : t.Proper)
    (integral : t.Integral) : ∀ seen ∈ found, seen.2.Regular := by
  cases visit with
  | idleCounter | cleanGauge => exact fun seen member => by cases member
  | counter atScope found unreported =>
    rintro _ ⟨⟩
    refine ⟨Scope.qualify_ne_empty _ (proper.counterName found).1, (proper.scopes atScope).distinct, ?_⟩
    rintro _ _ delta ⟨⟩
    obtain ⟨m, n, rfl⟩ := integral _ _ found
    cases unreported
    exact ⟨_, rfl⟩
  | gauge atScope found =>
    rintro _ ⟨⟩
    exact ⟨Scope.qualify_ne_empty _ (proper.gaugeName found).1, (proper.scopes atScope).distinct,
      fun _ _ _ same => by cases same⟩

theorem Sweep.regular {found : Option (Text × Observation)} (sweep : t.Sweep found u) (proper : t.Proper)
    (integral : t.Integral) : ∀ seen ∈ found, seen.2.Regular := by
  induction sweep with
  | stop => exact fun seen member => by cases member
  | pass visit _ ih => exact ih (visit.proper proper) (visit.integral integral)
  | find visit => exact visit.regular proper integral

end Tree

/-- The summary of a pass that told of these metrics, those of them that were not taken as errors. -/
def Summary.ofPiece (taken : Observation → Bool) (piece : List Observation) (failed : Bool) : Summary :=
  ⟨(piece.filter taken).countP Observation.isCounter, (piece.filter taken).countP (!·.isCounter),
    (piece.countP (!taken ·) : Nat) + if failed then 1 else 0⟩

namespace Pieces

/-- The summaries of passes that told of these pieces, by what was taken, and by whether the flush of a piece after those
before it failed. -/
def summaries (taken : Observation → Bool) (fails : List (List Observation) → List Observation → Bool)
    (pieces : List (List Observation)) : List Summary :=
  pieces.mapIdx fun i piece => Summary.ofPiece taken piece (fails (pieces.take i) piece)

theorem summaries_concat (taken : Observation → Bool) (fails : List (List Observation) → List Observation → Bool)
    (pieces : List (List Observation)) (piece : List Observation) :
    summaries taken fails (pieces ++ [piece]) =
      summaries taken fails pieces ++ [Summary.ofPiece taken piece (fails pieces piece)] := by
  rw [summaries, List.mapIdx_concat, List.take_left]
  refine congrArg (· ++ _) (List.mapIdx_eq_mapIdx_iff.mpr fun i inside => ?_)
  rw [List.take_append_of_le_length (Nat.le_of_lt inside)]

/-- That a reporter can be closed does not matter for what it is told of metrics. -/
theorem ofCalls_filter (calls : List Call) : ofCalls (calls.filter (!·.isClose)) = ofCalls calls := by
  induction calls using List.reverseRecOn with
  | nil => rfl
  | append_singleton sooner next ih =>
    rw [List.filter_append, ofCalls_concat, ← ih]
    cases next with
    | close => rw [List.filter_singleton]; exact congrArg ofCalls (List.append_nil _)
    | observe | flush => exact ofCalls_concat _ _

end Pieces

theorem Summary.eq_nil_of_ofPiece {taken : Observation → Bool} {piece : List Observation}
    (nothing : ofPiece taken piece false = .empty) : piece = [] := by
  have counters : (((piece.filter taken).countP Observation.isCounter : Nat) : Int) = 0 :=
    congrArg Summary.counters nothing
  have gauges : (((piece.filter taken).countP (!·.isCounter) : Nat) : Int) = 0 := congrArg Summary.gauges nothing
  have errors : ((piece.countP (!taken ·) : Nat) : Int) + 0 = 0 := congrArg Summary.errors nothing
  have kinds := (piece.filter taken).length_eq_countP_add_countP Observation.isCounter
  have parts := piece.length_eq_countP_add_countP taken
  rw [← List.countP_eq_length_filter] at kinds
  simp only [Bool.not_eq_true, Bool.decide_eq_false] at kinds parts
  exact List.eq_nil_of_length_eq_zero (by omega)

/-- Does the sending of a piece fail, after those before it? Nothing is sent of one of
which nothing is taken. -/
def Batching.fails (send : Sender) (before : List (List Observation)) (piece : List Observation) : Bool :=
  !(Pieces.records piece).isEmpty && (send (Pieces.batches (before ++ [piece]))).isSome

namespace Loop

theorem tallied_ofPiece (taken : Observation → Bool) (piece : List Observation) (o : Observation)
    {verdict : Option Failure} (refused : verdict.isSome = !taken o) :
    tallied (Summary.ofPiece taken piece false) o (verdict.elim .returned .failed) =
      Summary.ofPiece taken (piece ++ [o]) false := by
  simp only [Summary.ofPiece, List.filter_append, List.countP_append, List.filter_singleton, List.countP_singleton]
  cases took : taken o with
  | true =>
    obtain rfl : verdict = none := by simpa [took] using refused
    simp only [Option.elim, tallied]
    cases kind : o.isCounter <;> simp [kind]
  | false =>
    obtain ⟨failure, rfl⟩ : ∃ failure, verdict = some failure :=
      Option.isSome_iff_exists.mp (by rw [refused, took]; rfl)
    simp [tallied]

theorem flushed_ofPiece (taken : Observation → Bool) (piece : List Observation) (verdict : Option Failure) :
    flushed (Summary.ofPiece taken piece false) (verdict.elim .returned .failed) =
      Summary.ofPiece taken piece verdict.isSome := by
  cases verdict <;> simp [flushed, Summary.ofPiece]

end Loop

namespace Course

/-- Which calls fail: those that tell of what is not taken, and some flushes, as the pieces say. -/
structure FailsAt (temper : Temper) (taken : Observation → Bool)
    (fails : List (List Observation) → List Observation → Bool) (calls : List Call) : Prop where
  observe : ∀ sooner o, sooner ++ [.observe o] <+: calls → (temper (sooner ++ [.observe o])).isSome = !taken o
  flush : ∀ sooner, sooner ++ [.flush] <+: calls →
    (temper (sooner ++ [.flush])).isSome = fails (Pieces.ofCalls sooner).flushed (Pieces.ofCalls sooner).since

/-- The account of a reporter that fails like this: each piece has its summary. -/
theorem Reckons.pieces {temper : Temper} {taken : Observation → Bool}
    {fails : List (List Observation) → List Observation → Bool} {calls : List Call} {told : List Summary}
    {tally : Summary} (reckons : Reckons temper calls told tally) (failsAt : FailsAt temper taken fails calls) :
    told = Pieces.summaries taken fails (Pieces.ofCalls calls).flushed ∧
      tally = Summary.ofPiece taken (Pieces.ofCalls calls).since false := by
  induction reckons with
  | start => exact ⟨rfl, rfl⟩
  | @call calls told tally next _ ih =>
    obtain ⟨observe, flush⟩ := failsAt
    have sooner : ∀ {some : List Call}, some <+: calls → some <+: calls ++ [next] :=
      fun first => first.trans (List.prefix_append _ _)
    obtain ⟨rfl, rfl⟩ := ih ⟨fun before o first => observe before o (sooner first),
      fun before first => flush before (sooner first)⟩
    rw [Pieces.ofCalls_concat]
    cases next with
    | close => exact ⟨List.append_nil _, rfl⟩
    | observe o =>
      exact ⟨List.append_nil _, Loop.tallied_ofPiece taken _ o (observe calls o (List.prefix_refl _))⟩
    | flush =>
      refine ⟨?_, rfl⟩
      rw [Pieces.add, Pieces.summaries_concat, ← flush calls (List.prefix_refl _)]
      exact congrArg (_ ++ [·]) (Loop.flushed_ofPiece taken _ _)

theorem failsAt_batching (send : Sender) {calls : List Call} (regular : Batching.Regular calls) :
    FailsAt (Batching.temper send) Observation.isTaken (Batching.fails send) calls := by
  refine ⟨fun sooner o first => ?_, fun sooner first => ?_⟩
  · rw [Batching.temper_observe send
      (regular o (first.subset (List.mem_append_right _ (List.mem_singleton.mpr rfl))))]
    cases o.isTaken <;> rfl
  · have before : Batching.Regular sooner := fun o member => regular o (first.subset (List.mem_append_left _ member))
    rw [Batching.temper_flush send before, Batching.fails]
    cases (Pieces.records (Pieces.ofCalls sooner).since).isEmpty <;> rfl

/-- All that the reporter was told of metrics is regular, and goes on to be. -/
structure Recording (c : Course) : Prop where
  proper : c.loop.tree.Proper
  integral : c.loop.tree.Integral
  regular : ∀ seen ∈ c.past.filterMap Event.observed?, seen.2.Regular

variable {c d : Course}

theorem Recording.take (recording : c.Recording) {step : Step} (integers : step.isIntegral) :
    (c.take step).Recording := by
  obtain ⟨proper, integral, regular⟩ := recording
  obtain ⟨events, past, effect⟩ := c.take_effect step
  cases effect with
  | @granted r asked run =>
    have change := Request.perform_change run
    refine ⟨r.perform_proper run proper, ?_, ?_⟩
    · subst asked
      exact change.integral integral (Request.perform_integers run integers)
    · rw [past, List.filterMap_append, filterMap_granted change, List.append_nil]
      exact regular
  | sweep sweep told =>
    refine ⟨sweep.preserves Tree.Visit.proper proper, sweep.integral integral, fun seen member => ?_⟩
    rw [past, List.filterMap_append, told, List.mem_append, Option.mem_toList] at member
    exact member.elim (regular seen) (sweep.regular proper integral seen)

theorem mem_calls_observe {past : List Event} {o : Observation} (member : .observe o ∈ calls past) :
    ∃ i, (i, o) ∈ past.filterMap Event.observed? := by
  obtain ⟨e, inside, called⟩ := List.mem_filterMap.mp member
  cases e with
  | called a =>
    cases a with
    | observing duty p o =>
      cases called
      exact ⟨p.cursor.scope, List.mem_filterMap.mpr ⟨_, inside, rfl⟩⟩
    | flushing | leaving => cases called
  | _ => cases called

theorem regular_served {o : Options} {interval : Interval} {opening : Opening} {errands : List Step}
    {temper : Temper} (opened : Opening.ofOptions o interval = .ok opening) (distinct : o.tags.keys.Nodup)
    (integral : ∀ step ∈ errands, step.isIntegral) (served : Served temper (Course.opened opening) errands d) :
    Batching.Regular (calls d.past) := by
  have first : (Course.opened opening).Recording := by
    refine ⟨opening.proper opened distinct, (faultless_run opened (List.forall_mem_nil _)).sound.integral, ?_⟩
    rw [Course.opened, filterMap_told]
    exact List.forall_mem_nil _
  have recording := served.keeps first (fun c step member _ _ before => before.take (integral step member))
    fun c before => before.take rfl
  intro o member
  obtain ⟨i, told⟩ := mem_calls_observe member
  exact recording.regular _ told

/-- A reporter that batches hands on what one that takes all metrics is told, cut at the flushes, without the metrics
whose names are more than characters, and with empty pieces left out: each metric as a record of its own, each batch
once, whether or not it can be sent. The tree is left the same, and the passes have the same summaries but for one error
for each metric that is left out, and one in each pass whose batch could not be sent. -/
theorem batches_refine {o : Options} {interval : Interval} {opening other : Opening} {r q : Reporter}
    {errands : List Step} {send : Sender}
    (opened : Opening.ofOptions { o with reporter := some r } interval = .ok opening)
    (opened' : Opening.ofOptions { o with reporter := some q } interval = .ok other)
    (distinct : o.tags.keys.Nodup) (outside : ∀ step ∈ errands, step.isErrand = true)
    (integral : ∀ step ∈ errands, step.isIntegral) :
    (∃ d, Served (fun _ => none) (Course.opened opening) errands d) ∧
    (∃ e, Served (Batching.temper send) (Course.opened other) errands e) ∧
    ∀ d e, Served (fun _ => none) (Course.opened opening) errands d →
      Served (Batching.temper send) (Course.opened other) errands e →
      let pieces := (Pieces.ofCalls (calls d.past)).flushed
      Batching.Regular (calls d.past) ∧
      (Batching.serve send (calls e.past)).sent = Pieces.batches pieces ∧
      (Batching.serve send (calls e.past)).batch.pending = [] ∧
      (∃ l : Loop, d.loop = l.on r ∧ e.loop = l.on q) ∧
      summaries d.past = pieces.map (Summary.ofPiece (fun _ => true) · false) ∧
      summaries e.past = Pieces.summaries Observation.isTaken (Batching.fails send) pieces := by
  refine ⟨exists_served _ _ outside, exists_served _ _ outside, fun d e first second => ?_⟩
  intro pieces
  have akin := first.akin (akin_opened opened opened') second
  have regular := regular_served opened distinct integral first
  have regular' := regular_served opened' distinct integral second
  have same : Pieces.ofCalls (calls e.past) = Pieces.ofCalls (calls d.past) := by
    rw [← Pieces.ofCalls_filter, ← akin.calls, Pieces.ofCalls_filter]
  obtain ⟨batch, sent⟩ := Batching.serve_pieces send regular'
  have never : FailsAt (fun _ => none) (fun _ => true) (fun _ _ => false) (calls d.past) :=
    ⟨fun _ _ _ => rfl, fun _ _ => rfl⟩
  obtain ⟨told, _⟩ := (reckons_served opened integral first).pieces never
  obtain ⟨told', left⟩ := (reckons_served opened' integral second).pieces (failsAt_batching send regular')
  refine ⟨regular, sent.trans (congrArg _ (congrArg _ same)), ?_, akin.loop, ?_, ?_⟩
  · -- No pass is under way, so that nothing is tallied, and nothing has come since the last flush.
    rw [batch, Summary.eq_nil_of_ofPiece left.symm]
    rfl
  · exact told.trans (List.mapIdx_eq_iff.mpr fun i => List.getElem?_map)
  · rw [told', same]

/-- Three reports and a close, at the first of which the batch cannot be sent; the third has nothing to report. -/
theorem batches_refine_unsent :
    ∃ opening other,
      Opening.ofOptions { Options.standard with reporter := some ⟨"Recorder", true, true⟩ } (.value .null) =
        .ok opening ∧
      Opening.ofOptions { Options.standard with reporter := some ⟨"Sender", true, false⟩ } (.value .null) =
        .ok other ∧
      let errands : List Step := [.request (.counter "" (.text "a")), .request (.gauge "" (.text "g")),
        .request (.inc ⟨"", "a"⟩ (.int 3)), .report, .request (.update ⟨"", "g"⟩ (.float .zero)),
        .report, .report, .close]
      let send : Sender := fun sent => if sent.length = 1 then some ⟨"OSError", "gone"⟩ else none
      ∃ e, Served (Batching.temper send) (Course.opened other) errands e ∧
        (Batching.serve send (calls e.past)).sent =
          [[⟨"a", .counter, .empty, some 3, none⟩], [⟨"g", .gauge, .empty, none, some .zero⟩]] ∧
        (Batching.serve send (calls e.past)).batch.pending = [] ∧
        summaries e.past = [⟨1, 0, 1⟩, ⟨0, 1, 0⟩, ⟨0, 0, 0⟩, ⟨0, 0, 0⟩] := by
  have opened : Opening.ofOptions { Options.standard with reporter := some ⟨"Recorder", true, true⟩ }
    (.value .null) = .ok _ := rfl
  have opened' : Opening.ofOptions { Options.standard with reporter := some ⟨"Sender", true, false⟩ }
    (.value .null) = .ok _ := rfl
  refine ⟨_, _, opened, opened', ?_⟩
  intro errands send
  have idle : ∀ {c : Course}, c.waiting.isEmpty = true → c.waiting = [] := List.isEmpty_iff.mp
  have busy : ∀ {c : Course}, c.waiting.isEmpty = false → c.waiting ≠ [] := List.isEmpty_eq_false_iff.mp
  have outside : ∀ step ∈ errands, step.isErrand = true := by simp [errands, Step.isErrand]
  have integral : ∀ step ∈ errands, step.isIntegral := by simp [errands, Step.isIntegral]
  obtain ⟨_, ⟨e, second⟩, refines⟩ :
    _ ∧ (∃ e, Served (Batching.temper send) (Course.opened _) errands e) ∧ _ :=
    batches_refine opened opened' .nil outside integral
  obtain ⟨_, sent, pending, _, _, told⟩ := refines _ e
    (.errand (idle (by decide +kernel)) rfl <| .errand (idle (by decide +kernel)) rfl <|
      .errand (idle (by decide +kernel)) rfl <| .errand (idle (by decide +kernel)) rfl <|
      .call (busy (by decide +kernel)) <| .call (busy (by decide +kernel)) <|
      .errand (idle (by decide +kernel)) rfl <| .errand (idle (by decide +kernel)) rfl <|
      .call (busy (by decide +kernel)) <| .call (busy (by decide +kernel)) <|
      .errand (idle (by decide +kernel)) rfl <| .call (busy (by decide +kernel)) <|
      .errand (idle (by decide +kernel)) rfl <| .call (busy (by decide +kernel)) <|
      .call (busy (by decide +kernel)) <| .done (idle (by decide +kernel))) second
  refine ⟨e, second, ?_, pending, ?_⟩
  · rw [sent]
    with_unfolding_all rfl
  · rw [told]
    with_unfolding_all rfl

/-- A metric whose name is half of a surrogate pair is told to a reporter that takes all metrics. One that batches
refuses it, so that nothing is sent, though nothing that is sent fails. -/
theorem batches_refine_refused :
    ∃ opening other,
      Opening.ofOptions { Options.standard with reporter := some ⟨"Recorder", true, true⟩ } (.value .null) =
        .ok opening ∧
      Opening.ofOptions { Options.standard with reporter := some ⟨"Sender", true, false⟩ } (.value .null) =
        .ok other ∧
      let name : Text := .singleton (.half 0)
      let errands : List Step := [.request (.counter "" (.text name)), .request (.inc ⟨"", name⟩ (.int 1)), .report]
      let send : Sender := fun _ => none
      ∃ d e, Served (fun _ => none) (Course.opened opening) errands d ∧
        Served (Batching.temper send) (Course.opened other) errands e ∧
        (Pieces.ofCalls (calls d.past)).flushed.map (·.map Observation.name) = [[name]] ∧
        summaries d.past = [⟨1, 0, 0⟩] ∧ (Batching.serve send (calls e.past)).sent = [] ∧
        summaries e.past = [⟨0, 0, 1⟩] := by
  refine ⟨_, _, rfl, rfl, ?_⟩
  intro name errands send
  have idle : ∀ {c : Course}, c.waiting.isEmpty = true → c.waiting = [] := List.isEmpty_iff.mp
  have busy : ∀ {c : Course}, c.waiting.isEmpty = false → c.waiting ≠ [] := List.isEmpty_eq_false_iff.mp
  exact ⟨_, _,
    .errand (idle (by decide +kernel)) rfl <| .errand (idle (by decide +kernel)) rfl <|
      .errand (idle (by decide +kernel)) rfl <| .call (busy (by decide +kernel)) <|
      .call (busy (by decide +kernel)) <| .done (idle (by decide +kernel)),
    .errand (idle (by decide +kernel)) rfl <| .errand (idle (by decide +kernel)) rfl <|
      .errand (idle (by decide +kernel)) rfl <| .call (busy (by decide +kernel)) <|
      .call (busy (by decide +kernel)) <| .done (idle (by decide +kernel)),
    by decide +kernel, by decide +kernel, List.isEmpty_iff.mp (by decide +kernel), by decide +kernel⟩

end Course

end MetricTree
