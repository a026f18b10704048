import MetricTree.Proofs.MatchingTrees
import MetricTree.Proofs.Productions

namespace MetricTree

open Identity

namespace Counter

variable {counter : Option Counter} {m : Int} {reported : Number}

theorem offer_of_int (integer : counter.getD .fresh = ⟨.int m, reported⟩) (n : Int) :
    offer counter n = some ⟨.int (m + n), reported⟩ := by
  rw [offer, integer, plus, inc_int]
  rfl

/-- Integers can be offered in any order to a counter whose total is one. -/
theorem foldl_offer_perm {ns others : List Int} (order : ns.Perm others)
    (integer : counter.getD .fresh = ⟨.int m, reported⟩) : ns.foldl offer counter = others.foldl offer counter := by
  induction order generalizing counter m with
  | nil => rfl
  | cons n _ ih => exact ih (congrArg (·.getD .fresh) (offer_of_int integer n))
  | swap n k rest =>
    have first : ∀ i j, offer (offer counter i) j = some ⟨.int (m + i + j), reported⟩ := fun i j =>
      offer_of_int (congrArg (·.getD .fresh) (offer_of_int integer i)) j
    rw [List.foldl_cons, List.foldl_cons, List.foldl_cons, List.foldl_cons, first, first, Int.add_right_comm]
  | trans _ _ first second => exact (first integer).trans (second integer)

/-- A counter that only integers were offered to holds their sum. -/
theorem exists_foldl_offer (integer : counter.getD .fresh = ⟨.int m, reported⟩) (ns : List Int) :
    ∃ k, (ns.foldl offer counter).getD .fresh = ⟨.int k, reported⟩ := by
  induction ns generalizing counter m with
  | nil => exact ⟨m, integer⟩
  | cons n rest ih => exact ih (congrArg (·.getD .fresh) (offer_of_int integer n))

end Counter

namespace Tree

/-- The counter that a call comes to. -/
def Reaches (t : Tree) (root : Text) (p : Production) (h : Handle) : Prop :=
  t.Leads root p.links h.scope ∧ t.nameFor h.scope p.name = .ok h.name

variable {t : Tree} {i : Text} {site : Site}

theorem Stands.leads {links : List Link} {j : Text} (stands : t.Stands i site) (proper : t.Proper)
    (leads : site.destination links = .ok j) : t.Leads i links j := by
  induction links generalizing t i site with
  | nil =>
    cases leads
    exact ⟨t, congrArg (fun i => Except.ok (i, t)) (stands.identity proper)⟩
  | cons link rest ih =>
    obtain ⟨_, accepted, onward⟩ := bind_eq_ok.mp leads
    obtain ⟨u, reached, still, there, _⟩ := stands.reach proper accepted
    obtain ⟨v, run⟩ := ih there still onward
    exact ⟨v, bind_eq_ok.mpr ⟨_, reached, run⟩⟩

theorem Stands.reaches {p : Production} {h : Handle} (stands : t.Stands i site) (proper : t.Proper)
    (lands : (site.landing t p).toOption = some h) : t.Reaches i p h := by
  cases run : site.landing t p with
  | error fault => rw [run] at lands; cases lands
  | ok k =>
    rw [run] at lands
    cases lands
    obtain ⟨j, led, rest⟩ := bind_eq_ok.mp run
    obtain ⟨name, named, same⟩ := bind_eq_ok.mp rest
    cases same
    exact ⟨stands.leads proper led, named⟩

end Tree

namespace Course

variable {c d e : Course} {site : Site} {root : Text} {ps qs : List Production}
  {results others : List (Except Fault Unit)}

/-- Where two of these calls come to a counter that there is already, its total is an integer. -/
def Integers (c : Course) (root : Text) (ps : List Production) : Prop :=
  ps.Pairwise fun p q => ∀ h k, c.loop.tree.Reaches root p h → c.loop.tree.Reaches root q h →
    c.loop.tree.counter? h = some k → ∃ m, k.total = .int m

theorem integers_of_integral (integral : c.loop.tree.Integral) (root : Text) (ps : List Production) :
    c.Integers root ps := by
  refine List.pairwise_of_forall fun _ _ h k _ _ there => ?_
  obtain ⟨m, _, rfl⟩ := integral h k there
  exact ⟨m, rfl⟩

/-- The amounts for a counter are offered in another order, but to no effect. -/
theorem Integers.foldl_offer (integers : c.Integers root ps) (proper : c.loop.tree.Proper)
    (stands : c.loop.tree.Stands root site) (order : ps.Perm qs) (h : Handle) :
    (site.landed c.loop.tree h ps).foldl Counter.offer (c.loop.tree.counter? h) =
      (site.landed c.loop.tree h qs).foldl Counter.offer (c.loop.tree.counter? h) := by
  have landed : (site.landed c.loop.tree h ps).Perm (site.landed c.loop.tree h qs) := order.filterMap _
  have pairs : (site.landed c.loop.tree h ps).Pairwise fun _ _ =>
      ∀ k, c.loop.tree.counter? h = some k → ∃ m, k.total = .int m := by
    have reaches : ∀ {p n}, (if (site.landing c.loop.tree p).toOption = some h then some p.amount else none) = some n →
        c.loop.tree.Reaches root p h := by
      intro p n found
      split at found
      · next lands => exact stands.reaches proper lands
      · cases found
    exact List.pairwise_filterMap.mpr (integers.imp fun both m one n other k => both h k (reaches one) (reaches other))
  rcases ns : site.landed c.loop.tree h ps with _ | ⟨m, _ | ⟨n, rest⟩⟩
  · rw [ns] at landed
    rw [landed.symm.eq_nil]
  · rw [ns] at landed
    rw [List.perm_singleton.mp landed.symm]
  · rw [ns] at pairs landed
    have integer : ∃ total reported, (c.loop.tree.counter? h).getD .fresh = ⟨.int total, reported⟩ := by
      cases there : c.loop.tree.counter? h with
      | none => exact ⟨0, .int 0, rfl⟩
      | some k =>
        obtain ⟨total, integer⟩ := (List.pairwise_cons.mp pairs).1 n (List.mem_cons_self ..) k there
        exact ⟨total, k.reported, by rw [Option.getD_some, ← integer]⟩
    obtain ⟨total, reported, integer⟩ := integer
    exact Counter.foldl_offer_perm landed integer

namespace ProducesAll

variable (one : c.ProducesAll site ps results d) (two : c.ProducesAll site qs others e) (order : ps.Perm qs)
include one two order

theorem mem_identities_iff (i : Text) : i ∈ d.loop.tree.identities ↔ i ∈ e.loop.tree.identities := by
  rw [one.identities, two.identities]
  exact or_congr_right ⟨fun ⟨p, member, along⟩ => ⟨p, order.mem_iff.mp member, along⟩,
    fun ⟨p, member, along⟩ => ⟨p, order.mem_iff.mpr member, along⟩⟩

theorem mem_counterNames_iff (i name : Text) :
    name ∈ d.loop.tree.counterNames i ↔ name ∈ e.loop.tree.counterNames i := by
  rw [Tree.mem_counterNames_iff (h := ⟨i, name⟩), Tree.mem_counterNames_iff (h := ⟨i, name⟩), one.made, two.made]
  exact or_congr_right ⟨fun ⟨p, member, made⟩ => ⟨p, order.mem_iff.mp member, made⟩,
    fun ⟨p, member, made⟩ => ⟨p, order.mem_iff.mpr member, made⟩⟩

end ProducesAll

theorem Asks.distinct (asks : c.Asks d) (distinct : c.loop.tree.Distinct) : d.loop.tree.Distinct := by
  obtain ⟨requests, rfl⟩ := asks
  exact distinct_steps distinct _

theorem Asks.grows (asks : c.Asks d) (proper : c.loop.tree.Proper) (distinct : c.loop.tree.Distinct)
    (integers : ∀ h, c.loop.tree.counter? h = none → ∀ k, d.loop.tree.counter? h = some k →
      ∃ m n : Int, k = ⟨.int m, .int n⟩) : c.loop.tree.Grows d.loop.tree := by
  have still := asks.proper proper
  have distinctly := asks.distinct distinct
  obtain ⟨requests, rfl⟩ := asks
  exact ⟨still, distinctly, c.retains_run _, c.follows_run _, integers⟩

/-- No name of one of these calls stands for a text that is the name of one of them. -/
abbrev AllApart (ps : List Production) : Prop := ∀ p ∈ ps, ∀ q ∈ ps, Apart p.name q.name

theorem AllApart.perm (apart : AllApart ps) (order : ps.Perm qs) : AllApart qs :=
  fun p one q two => apart p (order.mem_iff.mpr one) q (order.mem_iff.mpr two)

theorem ProducesAll.grows (produces : c.ProducesAll site ps results d) (apart : AllApart ps)
    (proper : c.loop.tree.Proper) (distinct : c.loop.tree.Distinct) : c.loop.tree.Grows d.loop.tree := by
  refine produces.asks.grows proper distinct fun h new k made => ?_
  have unmade : (none : Option Counter).getD .fresh = ⟨.int 0, .int 0⟩ := rfl
  obtain ⟨m, sum⟩ := Counter.exists_foldl_offer unmade (site.landed c.loop.tree h ps)
  rw [← new, ← produces.counters apart, made] at sum
  exact ⟨m, 0, sum⟩

/-- What calls in different orders make of a tree is the same, but for the order of what is new. -/
theorem ProducesAll.matches (one : c.ProducesAll site ps results d) (two : c.ProducesAll site qs others e)
    (order : ps.Perm qs) (apart : AllApart ps) (proper : c.loop.tree.Proper) (stands : c.loop.tree.Stands root site)
    (distinct : c.loop.tree.Distinct) (integers : c.Integers root ps) :
    c.loop.tree.Matches d.loop.tree e.loop.tree where
  left := one.grows apart proper distinct
  right := two.grows (apart.perm order) proper distinct
  identities := (List.perm_ext_iff_of_nodup (one.asks.distinct distinct).identities
    (two.asks.distinct distinct).identities).mpr fun i => one.mem_identities_iff two order i
  counters h := by
    rw [one.counters apart, two.counters (apart.perm order), integers.foldl_offer proper stands order]

/-- The next pass of the one course tells a gentle reporter of the same counters as that of the other, but for their
order, whatever else the reporters do. -/
def TellAlike (d e : Course) : Prop :=
  ∀ step duty, Makes step duty → ∀ script other : Script, script.Gentle → other.Gentle → ∃ d' e' events more,
    script.Passes duty (d.take step) d' ∧ other.Passes duty (e.take step) e' ∧ d'.past = d.past ++ events ∧
    e'.past = e.past ++ more ∧
    ((countersTold events).map Observation.canonical).Perm ((countersTold more).map Observation.canonical)

/-- A course comes to its next pass. -/
structure Ready (c : Course) : Prop where
  here : ∃ s, c.At s
  rests : c.waiting = []
  unclosed : c.loop.phase.isOver = false
  attached : c.loop.reporter.isSome

theorem tellAlike_of_matches {t : Tree} (matched : t.Matches d.loop.tree e.loop.tree) (left : d.Ready)
    (right : e.Ready) :
    d.TellAlike e := by
  intro step duty makes script other gentle otherGentle
  have one := makes.tells left.here left.rests left.unclosed left.attached matched.left.distinct
  have two := makes.tells right.here right.rests right.unclosed right.attached matched.right.distinct
  obtain ⟨d', events, passes, past, told⟩ := one.passes gentle
  obtain ⟨e', more, otherPasses, otherPast, otherTold⟩ := two.passes otherGentle
  exact ⟨d', e', events, more, passes, otherPasses, past, otherPast, by rw [told, otherTold]; exact matched.dues⟩

section Opened

variable {o : Options} {interval : Interval} {opening : Opening} (opened : Opening.ofOptions o interval = .ok opening)
include opened

theorem exists_stands (distinct : o.tags.keys.Nodup) (steps : List Step) :
    ∃ site, ((Course.opened opening).run steps).loop.tree.Stands opening.root site := by
  have proper := proper_run (c := Course.opened opening) (Opening.proper opened distinct) steps
  obtain ⟨_, _, s, _, _, atRoot, _⟩ := Opening.scope?_root opened
  obtain ⟨r, there, _⟩ := ((Course.opened opening).retains_run steps).scopes atRoot
  exact ⟨⟨_, r.stem, r.tags⟩, rfl, ⟨r, there, rfl, .refl _⟩, (proper.scopes there).distinct⟩

theorem Asks.ready {steps : List Step} (asks : ((Course.opened opening).run steps).Asks d)
    (rests : ((Course.opened opening).run steps).waiting = [])
    (unclosed : ((Course.opened opening).run steps).loop.phase.isOver = false) (attached : o.reporter.isSome) :
    d.Ready := by
  obtain ⟨waiting, phase⟩ := asks.frame
  obtain ⟨requests, rfl⟩ := asks
  rw [← run_append] at waiting phase ⊢
  obtain ⟨s, placed⟩ := placed_run opened (steps ++ requests.map .request)
  exact ⟨⟨s, placed.here⟩, waiting.trans rests, (congrArg Phase.isOver phase).trans unclosed,
    placed.reporter ▸ attached⟩

/-- In whatever order calls of producers are made, they register the same scopes and counters. If no name that is no text
stands for the text which another call has as its name, each of them comes to the same answer; and where calls meet at a
counter with an integer, the next pass tells the reporter of the same counters. -/
theorem producers_commute (distinct : o.tags.keys.Nodup) (steps : List Step) (order : ps.Perm qs) :
    let c := (Course.opened opening).run steps
    let d := (c.produceAll opening.root ps).2
    let e := (c.produceAll opening.root qs).2
    d.loop.tree.identities.Perm e.loop.tree.identities ∧
    (∀ i, (d.loop.tree.counterNames i).Perm (e.loop.tree.counterNames i)) ∧
    (AllApart ps →
      (∃ verdict, (c.produceAll opening.root ps).1 = ps.map verdict ∧
        (c.produceAll opening.root qs).1 = qs.map verdict) ∧
      (c.Integers opening.root ps → (∀ h, d.loop.tree.counter? h = e.loop.tree.counter? h) ∧
        (c.waiting = [] → c.loop.phase.isOver = false → o.reporter.isSome → d.TellAlike e))) := by
  intro c d e
  have proper : c.loop.tree.Proper := proper_run (Opening.proper opened distinct) steps
  have distinctly : c.loop.tree.Distinct := distinct_run opened steps
  obtain ⟨site, stands⟩ : ∃ site, c.loop.tree.Stands opening.root site := exists_stands opened distinct steps
  have one : c.ProducesAll site ps (c.produceAll opening.root ps).1 d := producesAll proper stands ps
  have two : c.ProducesAll site qs (c.produceAll opening.root qs).1 e := producesAll proper stands qs
  have left := one.asks.distinct distinctly
  have right := two.asks.distinct distinctly
  refine ⟨?_, fun i => ?_, fun apart => ⟨⟨_, one.answers apart, two.answers (apart.perm order)⟩, fun integers => ?_⟩⟩
  · exact (List.perm_ext_iff_of_nodup left.identities right.identities).mpr (one.mem_identities_iff two order)
  · exact (List.perm_ext_iff_of_nodup (Tree.nodup_counterNames left i) (Tree.nodup_counterNames right i)).mpr
      (one.mem_counterNames_iff two order i)
  · have matched := one.matches two order apart proper stands distinctly integers
    refine ⟨matched.counters, fun rests unclosed attached => tellAlike_of_matches matched ?_ ?_⟩
    · exact one.asks.ready opened rests unclosed attached
    · exact two.asks.ready opened rests unclosed attached

end Opened

/-- A reporter that makes a scope and asks for another pass in each of its calls, and fails in some of them. -/
def Script.restless : Script where
  errands _ := [.request (.subScope "svc+" (.text "late")), .report]
  outcome past := if past.length % 2 = 0 then .returned else .failed ⟨"OSError", "gone"⟩
  outside _ := by simp [Step.isErrand]

theorem Script.gentle_restless : Script.restless.Gentle := by
  refine ⟨fun past h amount member => ?_, fun past => ?_⟩
  · simp [restless] at member
  · show (ite _ _ _ : Outcome).aborts = false
    split <;> rfl

/-- Two ways lead to one scope, a call fails halfway, and the reporter makes scopes and metrics of its own. -/
theorem producers_commute_reversed :
    ∃ opening, Opening.ofOptions ⟨.text "svc", .text ".", .empty, some ⟨"Recorder", true, true⟩⟩ (.value .null) =
        .ok opening ∧
      let prod : Table Value Value := ⟨[(.text "env", .text "prod")]⟩
      let test : Table Value Value := ⟨[(.text "env", .text "test")]⟩
      let steps : List Step := [.request (.counter "svc+" (.text "hits")), .request (.inc ⟨"svc+", "hits"⟩ (.int 3))]
      let ps : List Production := [⟨[.below (.text "db"), .tagged prod], .text "hits", 2⟩,
        ⟨[.below (.text "cache"), .below (.text "")], .text "hits", 7⟩,
        ⟨[.tagged prod, .below (.text "db")], .text "hits", 5⟩,
        ⟨[], .text "hits", -3⟩, ⟨[.tagged test], .text "hits", 1⟩]
      let c := (Course.opened opening).run steps
      let d := (c.produceAll opening.root ps).2
      let e := (c.produceAll opening.root ps.reverse).2
      d.loop.tree.identities = ["svc+", "svc.db+", "svc.db+env=prod", "svc.cache+", "svc+env=prod", "svc+env=test"] ∧
        d.loop.tree.identities.Perm e.loop.tree.identities ∧
        (d.loop.tree.counter? ⟨"svc.db+env=prod", "hits"⟩).map Counter.total = some (.int 7) ∧
        (e.loop.tree.counter? ⟨"svc.db+env=prod", "hits"⟩).map Counter.total = some (.int 7) ∧
        ∃ d' e' events more, Script.restless.Passes .report (d.take .report) d' ∧
          Script.restless.Passes .report (e.take .report) e' ∧
          d'.past = d.past ++ events ∧ e'.past = e.past ++ more ∧
          ((countersTold events).map Observation.canonical).Perm ((countersTold more).map Observation.canonical) := by
  let opening := (Opening.ofOptions ⟨.text "svc", .text ".", .empty, some ⟨"Recorder", true, true⟩⟩
    (.value .null)).toOption.get rfl
  have opened : Opening.ofOptions ⟨.text "svc", .text ".", .empty, some ⟨"Recorder", true, true⟩⟩ (.value .null) =
    .ok opening := rfl
  refine ⟨opening, opened, ?_⟩
  intro prod test steps ps
  have apart : AllApart ps := by simp [AllApart, Apart, ps, Value.text?]
  obtain ⟨registered, _, commutes⟩ := producers_commute opened List.nodup_nil steps ps.reverse_perm.symm
  obtain ⟨_, commutes⟩ := commutes apart
  generalize start : (Course.opened opening).run steps = c at registered commutes ⊢
  have integral : ∀ step ∈ steps, step.isIntegral := by simp [steps, Step.isIntegral]
  have integers := integers_of_integral (start ▸ (faultless_run opened integral).sound.integral)
  have none : c.waiting = [] := List.isEmpty_iff.mp (by subst start; decide +kernel)
  obtain ⟨_, tells⟩ := commutes (integers _ ps)
  have unclosed : c.loop.phase.isOver = false := by subst start; decide +kernel
  have passes := tells none unclosed rfl .report .report .report Script.restless Script.restless
    Script.gentle_restless Script.gentle_restless
  refine ⟨?_, registered, ?_, ?_, passes⟩ <;> subst start <;> decide +kernel

/-- With a total that is no integer, the order of calls decides which amounts are lost. A reporter that adds to a
counter, or interrupts the pass, does so before or after the other counters are told. A name that stands for a text is
accepted once there is a counter which the text names. -/
theorem producers_commute_apart :
    ∃ opening, Opening.ofOptions { Options.standard with reporter := some ⟨"Recorder", true, true⟩ }
        (.value .null) = .ok opening ∧
      let half := Binary64.signed false (.ofRank (1022 * Nat.pow 2 52))
      let told : Course → List Production → List Step → List (Text × Number) := fun c ps calls =>
        (countersTold (((c.produceAll opening.root ps).2.take .report).run calls).past).map fun o => (o.name, o.amount)
      let c := Course.opened opening
      let inexact := c.run [.request (.counter "" (.text "a")), .request (.inc ⟨"", "a"⟩ (.float half))]
      let adding : List Step := [.request (.inc ⟨"", "b"⟩ (.int 1)), .outcome .returned, .outcome .returned]
      let a : Int → Production := fun n => ⟨[], .text "a", n⟩
      let b : Int → Production := fun n => ⟨[], .text "b", n⟩
      let like : Production :=
        ⟨[], .object ⟨"UserString", .text "a", true, .error (.unreadableNumber "'a'"), .ok "'a'", .ok "a"⟩, 1⟩
      let many : Int := Nat.pow 2 53
      told inexact [a many, a 1, a (-many)] [] = [] ∧
        told inexact [a many, a (-many), a 1] [] = [(↑"a", .float (.signed false (.ofRank (1023 * Nat.pow 2 52))))] ∧
        told c [a 1, b 1] adding = [(↑"a", .int 1), (↑"b", .int 2)] ∧
        told c [b 1, a 1] adding = [(↑"b", .int 1), (↑"a", .int 1)] ∧
        told c [a 1, b 1] [.outcome (.aborted "stop")] = [(↑"a", .int 1)] ∧
        told c [b 1, a 1] [.outcome (.aborted "stop")] = [(↑"b", .int 1)] ∧
        (c.produceAll opening.root [a 1, like]).1.map Except.isOk = [true, true] ∧
        (c.produceAll opening.root [like, a 1]).1.map Except.isOk = [false, true] := by
  have opened : Opening.ofOptions { Options.standard with reporter := some ⟨"Recorder", true, true⟩ }
    (.value .null) = .ok _ := rfl
  refine ⟨_, opened, ?_⟩
  intro half told c inexact adding a b like many
  exact ⟨by decide +kernel, by decide +kernel, by decide +kernel, by decide +kernel, by decide +kernel,
    by decide +kernel, by decide +kernel, by decide +kernel⟩

end Course

end MetricTree
