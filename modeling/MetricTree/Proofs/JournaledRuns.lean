import MetricTree.Proofs.BatchedRuns
import MetricTree.Proofs.Journals
import MetricTree.Proofs.PassNumbers

namespace MetricTree

open Log

/-- A text that reads as the event of a batch: it tells its number, how many metrics it has, and of each the record. -/
def Journal.ReadsAs (text : Text) (number : Nat) (records : List Record) : Prop :=
  ∃ line metrics, Json.read? text = some line ∧
    (line.member? "event").bind Json.text? = some ↑"statscope.reporter.batch" ∧
    (line.member? "flush_number").bind Json.number? = some (.int number) ∧
    (line.member? "size").bind Json.number? = some (.int metrics.length) ∧
    line.member? "metrics" = some (.array metrics) ∧ metrics.map Record.ofJson = records.map .ok

namespace Journal

variable {j : Journal} {title thread : Text} {time : String} {number : Nat} {piece : List Observation}

theorem line_readsAs (regular : ∀ o ∈ piece, o.Regular) (brief : isBrief number (Pieces.records piece) = true) :
    ReadsAs (j.line title time thread number (Pieces.records piece)).print number
      ((Pieces.records piece).map Record.shown) := by
  obtain ⟨numbered, sized, brief⟩ := isBrief_iff.mp brief
  have metrics := (Value.showable_of_image (Record.image_records brief)).2
  refine ⟨_, _, Json.read?_print _, rfl, Value.number?_told (x := .int number) numbered, ?_, congrArg some metrics, ?_⟩
  · rw [List.length_map]
    exact Value.number?_told (x := .int (Pieces.records piece).length) sized
  · rw [List.map_map, List.map_map]
    refine List.map_congr_left fun r member => ?_
    obtain ⟨o, told, rfl⟩ := List.mem_map.mp member
    obtain ⟨told, taken⟩ := List.mem_filter.mp told
    exact Record.ofJson_toJson (regular o told) taken (brief _ member)

end Journal

namespace Pieces

/-- The pieces have nothing that was not told. -/
theorem observe_mem {calls : List Call} :
    (∀ piece ∈ (ofCalls calls).flushed, ∀ o ∈ piece, .observe o ∈ calls) ∧
      ∀ o ∈ (ofCalls calls).since, .observe o ∈ calls := by
  induction calls using List.reverseRecOn with
  | nil => exact ⟨nofun, nofun⟩
  | append_singleton sooner next ih =>
    obtain ⟨cut, since⟩ := ih
    have cut : ∀ piece ∈ (ofCalls sooner).flushed, ∀ o ∈ piece, .observe o ∈ sooner ++ [next] :=
      fun piece member o inside => List.mem_append_left _ (cut piece member o inside)
    have since : ∀ o ∈ (ofCalls sooner).since, .observe o ∈ sooner ++ [next] :=
      fun o inside => List.mem_append_left _ (since o inside)
    rw [ofCalls_concat]
    cases next with
    | close => exact ⟨cut, since⟩
    | flush => exact ⟨List.forall_mem_append.mpr ⟨cut, List.forall_mem_singleton.mpr since⟩, nofun⟩
    | observe o =>
      refine ⟨cut, List.forall_mem_append.mpr ⟨since, List.forall_mem_singleton.mpr ?_⟩⟩
      exact List.mem_append_right _ (List.mem_singleton.mpr rfl)

end Pieces

theorem Summary.emitted_ofPiece (piece : List Observation) (failed : Bool) :
    (ofPiece Observation.isTaken piece failed).counters + (ofPiece Observation.isTaken piece failed).gauges =
      (Pieces.records piece).length := by
  rw [Pieces.records, List.length_map, List.length_eq_countP_add_countP Observation.isCounter]
  simp only [ofPiece, Bool.not_eq_true, Bool.decide_eq_false, Nat.cast_add]

namespace Course

variable {temper : Temper} {c d : Course}

theorem Served.past_prefix {errands : List Step} (served : Served temper c errands d) : c.past <+: d.past :=
  served.keeps (P := fun e => c.past <+: e.past) (List.prefix_refl _)
    (fun e step _ _ _ before => before.trans (past_prefix_run e [step]))
    fun e before => before.trans (past_prefix_run e [.outcome _])

/-- Reporters that agree on the calls of a run have it in common. -/
theorem Served.congr {other : Temper} {errands : List Step} (served : Served temper c errands d)
    (same : ∀ sooner, sooner <+: calls d.past → temper sooner = other sooner) : Served other c errands d := by
  induction served with
  | done none => exact .done none
  | errand none outside _ ih => exact .errand none outside (ih same)
  | @call c _ _ some later ih =>
    have sooner : c.past <+: (c.answer temper).past := past_prefix_run c [.outcome _]
    have agreed : temper.outcome c.past = other.outcome c.past := by
      rw [Temper.outcome, same (calls c.past) ((sooner.trans later.past_prefix).filterMap _), Temper.outcome]
    refine .call some ?_
    rw [answer, ← agreed]
    exact ih same

/-- A journal that is written and has nothing to refuse fails at no call. -/
theorem served_journaling {errands : List Step} {j : Journal} {config : Config} {clock : Nat → Origin}
    (served : Served (fun _ => none) c errands d) (writes : j.Writes config)
    (moments : ∀ k, ∃ time, (clock k).Timed time) (regular : Batching.Regular (calls d.past))
    (kept : (calls d.past).all fun call => (Journaling.refusal call).isNone) :
    Served (Journaling.temper j config clock) c errands d := by
  refine served.congr fun sooner first => ?_
  rw [Journaling.temper_eq writes moments fun o member => regular o (first.subset member)]
  cases last : sooner.getLast? with
  | none => rfl
  | some call =>
    exact (Option.isNone_iff_eq_none.mp
      (List.all_eq_true.mp kept call (first.subset (List.mem_of_getLast? last)))).symm

theorem numbered_served {o : Options} {interval : Interval} {opening : Opening} {errands : List Step}
    (opened : Opening.ofOptions o interval = .ok opening) (served : Served temper (Course.opened opening) errands d) :
    d.Numbered :=
  served.keeps (numbered_opened opened) (fun _ step _ _ _ before => before.take step) fun _ before => before.take _

theorem failsAt_journaling {j : Journal} {config : Config} {clock : Nat → Origin} {calls : List Call}
    (writes : j.Writes config) (moments : ∀ k, ∃ time, (clock k).Timed time) (regular : Batching.Regular calls) :
    FailsAt (Journaling.temper j config clock) Observation.isTaken (fun _ _ => false) calls := by
  have temper : ∀ sooner next, sooner ++ [next] <+: calls →
      Journaling.temper j config clock (sooner ++ [next]) = Journaling.refusal next := by
    intro sooner next first
    rw [Journaling.temper_eq writes moments fun o member => regular o (first.subset member), List.getLast?_concat,
      Option.bind_some]
  refine ⟨fun sooner o first => ?_, fun sooner first => ?_⟩
  · rw [temper sooner _ first, Journaling.refusal]
    cases o.isTaken <;> rfl
  · rw [temper sooner _ first]
    rfl

/-- Each pass that tells of metrics writes one line, and one that tells of none writes nothing. Read back, the line
tells the number of the pass and of its metrics, and its objects make the records of what was reported. Metrics whose
names are more than characters are refused; a line in which an integer is too long is not written; and keys of tags are
told in characters alone. -/
theorem journal_reads_back {o : Options} {interval : Interval} {opening : Opening} {errands : List Step} {j : Journal}
    {config : Config} {clock : Nat → Origin} (opened : Opening.ofOptions o interval = .ok opening)
    (distinct : o.tags.keys.Nodup) (outside : ∀ step ∈ errands, step.isErrand = true)
    (integral : ∀ step ∈ errands, step.isIntegral) (writes : j.Writes config)
    (moments : ∀ k, ∃ time, (clock k).Timed time) :
    (∃ d, Served (Journaling.temper j config clock) (Course.opened opening) errands d) ∧
    ∀ d, Served (Journaling.temper j config clock) (Course.opened opening) errands d →
      let passes := passesTold d.past
      let pieces := (Pieces.ofCalls (calls d.past)).flushed
      let lines := (Journaling.serve j config clock (calls d.past)).lines
      d.loop.passes = passes.length ∧ pieces.length = passes.length ∧ lines.length = passes.length ∧
      ∀ (i : Nat) (summary : Summary) (number : Nat), passes[i]? = some (summary, number) →
        number = i + 1 ∧ ∃ piece, pieces[i]? = some piece ∧
          let records := Pieces.records piece
          summary.counters + summary.gauges = records.length ∧
          (records = [] ∨ Journal.isBrief number records = false → lines[i]? = some []) ∧
          (records ≠ [] → Journal.isBrief number records = true → ∃ line, lines[i]? = some [line] ∧
            Journal.ReadsAs line.print number (records.map Record.shown)) ∧
          ∀ r ∈ records, (∀ key ∈ r.tags.keys, key.isUnicode = true) → r.shown = r := by
  refine ⟨exists_served _ _ outside, fun d served => ?_⟩
  intro passes pieces lines
  have regular := regular_served opened distinct integral served
  have calm := failsAt_journaling writes moments regular
  obtain ⟨n, exact, _⟩ := writes.enabled
  obtain ⟨title, titled⟩ := exists_levelTitle exact writes.brief
  choose time timed using moments
  have account := Journaling.serve_eq writes titled timed regular
  obtain ⟨told, _⟩ := (reckons_served opened integral served).pieces calm
  have numbered := numbered_served opened served
  have count : d.loop.passes = passes.length := by
    rw [← List.length_map (f := Prod.snd), map_snd_passesTold, numbered.numbers, List.length_range']
  have cut : pieces.length = passes.length := by
    rw [← @List.length_map _ _ passes Prod.fst, map_fst_passesTold, told, Pieces.summaries, List.length_mapIdx]
  have written : lines = j.linesOf title time clock pieces := congrArg Journaling.lines account
  refine ⟨count, cut, ?_, fun i summary number pass => ?_⟩
  · rw [written, Journal.linesOf, List.length_mapIdx, cut]
  · have ranked : (numbers d.past)[i]? = some number := by
      rw [← map_snd_passesTold, List.getElem?_map, pass, Option.map_some]
    have summed : (summaries d.past)[i]? = some summary := by
      rw [← map_fst_passesTold, List.getElem?_map, pass, Option.map_some]
    have bounded : i < pieces.length := cut ▸ (List.getElem?_eq_some_iff.mp pass).1
    have at_piece : pieces[i]? = some pieces[i] := List.getElem?_eq_getElem bounded
    have is_piece : summary = .ofPiece Observation.isTaken pieces[i] false := by
      rw [told, Pieces.summaries, List.getElem?_mapIdx, at_piece] at summed
      exact (Option.some.inj summed).symm
    have is_rank : number = i + 1 := by
      rw [numbered.numbers, List.getElem?_range' (by omega)] at ranked
      have := Option.some.inj ranked
      omega
    have is_line : lines[i]? = some (j.lineOf? title (time number) (clock number).thread number
        (Pieces.records pieces[i])).toList := by
      rw [written, Journal.linesOf, List.getElem?_mapIdx, at_piece, is_rank]
      rfl
    have regular : ∀ o ∈ pieces[i], o.Regular := fun o member =>
      regular o (Pieces.observe_mem.1 pieces[i] (List.getElem_mem bounded) o member)
    refine ⟨is_rank, pieces[i], at_piece, ?_, fun silent => ?_, fun occupied brief => ?_, fun r member unicode => ?_⟩
    · rw [is_piece, Summary.emitted_ofPiece]
    · rw [is_line, Journal.lineOf?]
      rcases silent with empty | long
      · rw [empty]
        rfl
      · rw [long, Bool.and_false]
        rfl
    · rw [is_line, Journal.lineOf?, brief, List.isEmpty_eq_false_iff.mpr occupied]
      exact ⟨_, rfl, Journal.line_readsAs regular brief⟩
    · obtain ⟨o, told, rfl⟩ := List.mem_map.mp member
      refine Record.shown_eq_self ?_ unicode
      have distinct := (regular o (List.mem_of_mem_filter told)).distinct
      cases o <;> exact distinct

deriving instance DecidableEq for Table
deriving instance DecidableEq for Observation

/-- Two metrics are reported and then nothing, so that only the first of three passes writes. -/
theorem journal_reads_back_once :
    ∃ opening,
      Opening.ofOptions { Options.standard with reporter := some ⟨"Journal", true, false⟩ } (.value .null) =
        .ok opening ∧
      let errands : List Step := [.request (.counter "" (.text "a")), .request (.gauge "" (.text "g")),
        .request (.inc ⟨"", "a"⟩ (.int 3)), .request (.update ⟨"", "g"⟩ (.float .zero)), .report, .report, .close]
      let clock : Nat → Origin := fun _ => ⟨.int 0, "MainThread"⟩
      ∃ d, Served (Journaling.temper .standard ⟨20, true⟩ clock) (Course.opened opening) errands d ∧
        passesTold d.past = [(⟨1, 1, 0⟩, 1), (⟨0, 0, 0⟩, 2), (⟨0, 0, 0⟩, 3)] ∧
        ∃ line, (Journaling.serve .standard ⟨20, true⟩ clock (calls d.past)).lines = [[line], [], []] ∧
          Journal.ReadsAs line.print 1
            [⟨"a", .counter, .empty, some 3, none⟩, ⟨"g", .gauge, .empty, none, some .zero⟩] := by
  let opening := (Opening.ofOptions { Options.standard with reporter := some ⟨"Journal", true, false⟩ }
    (.value .null)).toOption.get rfl
  have opened : Opening.ofOptions { Options.standard with reporter := some ⟨"Journal", true, false⟩ }
    (.value .null) = .ok opening := rfl
  refine ⟨opening, opened, ?_⟩
  intro errands clock
  have idle : ∀ {c : Course}, c.waiting.isEmpty = true → c.waiting = [] := List.isEmpty_iff.mp
  have busy : ∀ {c : Course}, c.waiting.isEmpty = false → c.waiting ≠ [] := List.isEmpty_eq_false_iff.mp
  have outside : ∀ step ∈ errands, step.isErrand = true := by simp [errands, Step.isErrand]
  have integral : ∀ step ∈ errands, step.isIntegral := by simp [errands, Step.isIntegral]
  have writes : Journal.standard.Writes ⟨20, true⟩ :=
    ⟨rfl, by decide +kernel, ⟨20, rfl, by decide +kernel⟩, by decide +kernel⟩
  have moments : ∀ k, ∃ time, (clock k).Timed time := fun _ => ⟨_, ⟨0⟩, rfl, rfl⟩
  have taken : Served (fun _ => none) (Course.opened opening) errands _ :=
    .errand (idle (by decide +kernel)) rfl <| .errand (idle (by decide +kernel)) rfl <|
      .errand (idle (by decide +kernel)) rfl <| .errand (idle (by decide +kernel)) rfl <|
      .errand (idle (by decide +kernel)) rfl <| .call (busy (by decide +kernel)) <|
      .call (busy (by decide +kernel)) <| .call (busy (by decide +kernel)) <|
      .errand (idle (by decide +kernel)) rfl <| .call (busy (by decide +kernel)) <|
      .errand (idle (by decide +kernel)) rfl <| .call (busy (by decide +kernel)) <|
      .done (idle (by decide +kernel))
  have regular := regular_served opened .nil integral taken
  have served := served_journaling taken writes moments regular (by decide +kernel)
  obtain ⟨_, reads⟩ := journal_reads_back opened .nil outside integral writes moments
  obtain ⟨_, _, count, reads⟩ := reads _ served
  obtain ⟨_, piece, told, _, _, writes, _⟩ := reads 0 ⟨1, 1, 0⟩ 1 (by decide +kernel)
  obtain ⟨_, second, _, none, silent, _, _⟩ := reads 1 ⟨0, 0, 0⟩ 2 (by decide +kernel)
  obtain ⟨_, third, _, none', silent', _, _⟩ := reads 2 ⟨0, 0, 0⟩ 3 (by decide +kernel)
  have metrics : [.counter "a" .empty (.int 3), .gauge "g" .empty .zero] = piece :=
    Option.some.inj (Eq.trans (by decide +kernel) told)
  subst metrics
  obtain ⟨line, first, read⟩ := writes (List.cons_ne_nil _ _) (by decide +kernel)
  have silent := silent (.inl (List.length_eq_zero_iff.mp (Nat.cast_eq_zero.mp none.symm)))
  have silent' := silent' (.inl (List.length_eq_zero_iff.mp (Nat.cast_eq_zero.mp none'.symm)))
  obtain ⟨_, _, _, all⟩ := List.length_eq_three.mp (count.trans (by decide +kernel))
  rw [all] at first silent silent'
  cases first
  cases silent
  cases silent'
  exact ⟨_, served, by decide +kernel, line, all, read⟩

/-- A metric is reported, but read back from its line, a tag has another key: half of a surrogate pair is told in three
characters. It is reported again, and no line is written, as its delta has more digits than are written. A third time, it
is refused for its name. -/
theorem journal_reads_back_altered :
    let half : Text := .singleton (.half 0)
    ∃ opening,
      Opening.ofOptions { Options.standard with
        tags := ⟨[(.text half, .text "v")]⟩, reporter := some ⟨"Journal", true, false⟩ } (.value .null) = .ok opening ∧
      let errands : List Step := [.request (.counter opening.root (.text "a")),
        .request (.inc ⟨opening.root, "a"⟩ (.int 1)), .report,
        .request (.inc ⟨opening.root, "a"⟩ (.int Text.leastTooLong)), .report,
        .request (.counter opening.root (.text half)), .request (.inc ⟨opening.root, half⟩ (.int 1)), .report]
      let clock : Nat → Origin := fun _ => ⟨.int 0, "MainThread"⟩
      ∃ d, Served (Journaling.temper .standard ⟨20, true⟩ clock) (Course.opened opening) errands d ∧
        (Pieces.ofCalls (calls d.past)).flushed = [[.counter "a" ⟨[(half, "v")]⟩ (.int 1)],
          [.counter "a" ⟨[(half, "v")]⟩ (.int Text.leastTooLong)], [.counter half ⟨[(half, "v")]⟩ (.int 1)]] ∧
        passesTold d.past = [(⟨1, 0, 0⟩, 1), (⟨1, 0, 0⟩, 2), (⟨0, 0, 1⟩, 3)] ∧
        ∃ line, (Journaling.serve .standard ⟨20, true⟩ clock (calls d.past)).lines = [[line], [], []] ∧
          Journal.ReadsAs line.print 1 [⟨"a", .counter, ⟨[("\uFFFD\uFFFD\uFFFD", "v")]⟩, some 1, none⟩] := by
  intro half
  let opening := (Opening.ofOptions { Options.standard with
    tags := ⟨[(.text half, .text "v")]⟩, reporter := some ⟨"Journal", true, false⟩ } (.value .null)).toOption.get rfl
  have opened : Opening.ofOptions { Options.standard with
    tags := ⟨[(.text half, .text "v")]⟩, reporter := some ⟨"Journal", true, false⟩ } (.value .null) = .ok opening := rfl
  refine ⟨opening, opened, ?_⟩
  intro errands clock
  have idle : ∀ {c : Course}, c.waiting.isEmpty = true → c.waiting = [] := List.isEmpty_iff.mp
  have busy : ∀ {c : Course}, c.waiting.isEmpty = false → c.waiting ≠ [] := List.isEmpty_eq_false_iff.mp
  have integral : ∀ step ∈ errands, step.isIntegral := by simp [errands, Step.isIntegral]
  have writes : Journal.standard.Writes ⟨20, true⟩ :=
    ⟨rfl, by decide +kernel, ⟨20, rfl, by decide +kernel⟩, by decide +kernel⟩
  have timed : ∀ k, (clock k).Timed "1970-01-01T00:00:00+00:00" := fun _ => ⟨⟨0⟩, rfl, rfl⟩
  obtain ⟨d, served, told, passes⟩ :
      ∃ d, Served (Journaling.temper .standard ⟨20, true⟩ clock) (Course.opened opening) errands d ∧
        (Pieces.ofCalls (calls d.past)).flushed = [[.counter "a" ⟨[(half, "v")]⟩ (.int 1)],
          [.counter "a" ⟨[(half, "v")]⟩ (.int Text.leastTooLong)], [.counter half ⟨[(half, "v")]⟩ (.int 1)]] ∧
        passesTold d.past = [(⟨1, 0, 0⟩, 1), (⟨1, 0, 0⟩, 2), (⟨0, 0, 1⟩, 3)] :=
    ⟨_, .errand (idle (by decide +kernel)) rfl <| .errand (idle (by decide +kernel)) rfl <|
      .errand (idle (by decide +kernel)) rfl <| .call (busy (by decide +kernel)) <|
      .call (busy (by decide +kernel)) <| .errand (idle (by decide +kernel)) rfl <|
      .errand (idle (by decide +kernel)) rfl <| .call (busy (by decide +kernel)) <|
      .call (busy (by decide +kernel)) <| .errand (idle (by decide +kernel)) rfl <|
      .errand (idle (by decide +kernel)) rfl <| .errand (idle (by decide +kernel)) rfl <|
      .call (busy (by decide +kernel)) <| .call (busy (by decide +kernel)) <| .done (idle (by decide +kernel)),
      by decide +kernel, by decide +kernel⟩
  have regular := regular_served opened (List.nodup_singleton _) integral served
  have account := congrArg Journaling.lines (Journaling.serve_eq writes rfl timed regular)
  rw [told] at account
  have first : ∀ o ∈ [Observation.counter "a" ⟨[(half, "v")]⟩ (.int 1)], o.Regular :=
    List.forall_mem_singleton.mpr ⟨by decide, List.nodup_singleton _, fun _ _ _ same => ⟨1, by cases same; rfl⟩⟩
  exact ⟨d, served, told, passes, _, account.trans rfl, Journal.line_readsAs first (by decide +kernel)⟩

end Course

end MetricTree
