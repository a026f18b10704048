import Mathlib.Data.List.Basic
import MetricTree.Proofs.CloseStages

namespace MetricTree

namespace Course

namespace Event

def isClosing : Event → Bool
  | .closing => true
  | _ => false

def begins : Event → Bool
  | .began _ => true
  | _ => false

def isCut : Event → Bool
  | .cut _ => true
  | _ => false

def isCall : Event → Bool
  | .called _ => true
  | _ => false

/-- Is it the call that closes the reporter? -/
def isParting : Event → Bool
  | .called (.leaving _) => true
  | _ => false

/-- Is it neither a close, nor a pass that begins or is cut, nor the reporter's close? -/
def isTame (e : Event) : Bool := !e.isClosing && !e.begins && !e.isCut && !e.isParting

theorem isTame_iff {e : Event} :
    e.isTame = true ↔ e.isClosing = false ∧ e.begins = false ∧ e.isCut = false ∧ e.isParting = false := by
  simp only [isTame, Bool.and_eq_true, Bool.not_eq_true', and_assoc]

theorem isTame_of_isQuiet {e : Event} (quiet : e.isQuiet = true) : e.isTame = true := by
  cases e with
  | closing | began | called | cut => cases quiet
  | _ => rfl

end Event

/-- What has happened since a close took effect. -/
def sinceClose : List Event → List Event
  | [] => []
  | .closing :: rest => rest
  | _ :: rest => sinceClose rest

theorem sinceClose_append_of_mem {past : List Event} (asked : .closing ∈ past) (events : List Event) :
    sinceClose (past ++ events) = sinceClose past ++ events := by
  induction past with
  | nil => cases asked
  | cons e rest ih =>
    cases e with
    | closing => rfl
    | _ => exact ih ((List.mem_cons.mp asked).resolve_left (fun same => by cases same))

theorem sinceClose_append_of_not_mem {past : List Event} (unasked : .closing ∉ past) (events : List Event) :
    sinceClose (past ++ events) = sinceClose events := by
  induction past with
  | nil => rfl
  | cons e rest ih =>
    cases e with
    | closing => exact absurd (List.mem_cons_self ..) unasked
    | _ => exact ih fun member => unasked (List.mem_cons_of_mem _ member)

theorem sinceClose_append_closing {past : List Event} (unasked : .closing ∉ past) (events : List Event) :
    sinceClose (past ++ .closing :: events) = events := sinceClose_append_of_not_mem unasked _

theorem sinceClose_of_not_mem {past : List Event} (unasked : .closing ∉ past) : sinceClose past = [] := by
  have whole := sinceClose_append_of_not_mem unasked []
  rwa [List.append_nil] at whole

theorem sinceClose_subset (past : List Event) : sinceClose past ⊆ past := by
  induction past with
  | nil => exact List.Subset.refl _
  | cons e rest ih =>
    cases e with
    | closing => exact List.subset_cons_self _ _
    | _ => exact fun e member => List.mem_cons_of_mem _ (ih member)

/-- The one pass that begins after a close: at once or, if the close came during the pass of a report,
as soon as that one has run to its end. -/
inductive LastPass : Duty → List Event → Prop
  | atOnce {rest : List Event} (alone : ∀ e ∈ rest, e.begins = false) : LastPass .close (.began .close :: rest)
  | putOff {mid rest : List Event} {tally summary : Summary} {o : Outcome}
      (going : ∀ e ∈ mid, e.begins = false ∧ e.isCut = false) (ended : .came (.flushing .report tally) o ∈ mid)
      (calm : o.aborts = false) (alone : ∀ e ∈ rest, e.begins = false) :
      LastPass (.farewell summary) (mid ++ .began (.farewell summary) :: rest)

theorem LastPass.append {duty : Duty} {since events : List Event} (pass : LastPass duty since)
    (alone : ∀ e ∈ events, e.begins = false) : LastPass duty (since ++ events) := by
  cases pass with
  | atOnce before => exact .atOnce (List.forall_mem_append.mpr ⟨before, alone⟩)
  | putOff going ended calm before =>
    rw [List.append_assoc]
    exact .putOff going ended calm (List.forall_mem_append.mpr ⟨before, alone⟩)

theorem countP_begins_eq_zero {events : List Event} (alone : ∀ e ∈ events, e.begins = false) :
    events.countP Event.begins = 0 := by
  rw [List.countP_eq_zero]
  intro e member
  rw [alone e member]
  exact Bool.false_ne_true

theorem LastPass.countP {duty : Duty} {since : List Event} (pass : LastPass duty since) :
    since.countP Event.begins = 1 := by
  cases pass with
  | atOnce alone => rw [List.countP_cons_of_pos rfl, countP_begins_eq_zero alone]
  | putOff going _ _ alone =>
    rw [List.countP_append, countP_begins_eq_zero fun e member => (going e member).1,
      List.countP_cons_of_pos rfl, countP_begins_eq_zero alone]

/-- A close that was answered before any pass began was put off. -/
theorem LastPass.farewell_of_answered {duty : Duty} {answer : Except Fault (Option Summary)} {rest : List Event}
    (pass : LastPass duty (.answered answer :: rest)) : ∃ summary, duty = .farewell summary := by
  cases duty with
  | farewell summary => exact ⟨summary, rfl⟩
  | report => cases pass
  | close => cases pass

/-- The reporter was closed, once and after everything else. -/
inductive Parted : List Event → Prop
  | mk {before after : List Event} {answer : Option Summary} (first : ∀ e ∈ before, e.isParting = false)
      (last : ∀ e ∈ after, e.isCall = false ∧ e.begins = false) :
      Parted (before ++ .called (.leaving answer) :: after)

theorem Parted.exists_parting {past : List Event} (parted : Parted past) :
    ∃ answer, .called (.leaving answer) ∈ past := by
  cases parted with
  | mk => exact ⟨_, List.mem_append_right _ (List.mem_cons_self ..)⟩

/-- Where a reporter that was closed once was closed, nothing of its kind was before, and no call after. -/
theorem Parted.unique {past before after : List Event} {answer : Option Summary} (parted : Parted past)
    (same : past = before ++ .called (.leaving answer) :: after) :
    (∀ e ∈ before, e.isParting = false) ∧ ∀ e ∈ after, e.isCall = false ∧ e.begins = false := by
  cases parted with
  | @mk before' after' answer' first last =>
    have notBefore : .called (.leaving answer) ∉ before' := fun member => by cases first _ member
    have notAfter : .called (.leaving answer) ∉ after' := fun member => by cases (last _ member).1
    obtain ⟨rfl, _, rfl⟩ := (List.append_cons_inj_of_notMem notBefore notAfter).mp same
    exact ⟨first, last⟩

/-- What a course has been through at a stage. -/
inductive Stage.Fits (reporter : Option Reporter) (past : List Event) : Stage → Prop
  | ready (unasked : .closing ∉ past) (unparted : ∀ e ∈ past, e.isParting = false) : Fits reporter past .ready
  | reporting (unasked : .closing ∉ past) (unparted : ∀ e ∈ past, e.isParting = false) :
      Fits reporter past (.passing .report false)
  | asked (asked : .closing ∈ past) (unparted : ∀ e ∈ past, e.isParting = false)
      (going : ∀ e ∈ sinceClose past, e.begins = false ∧ e.isCut = false) : Fits reporter past (.passing .report true)
  | last {duty : Duty} (asked : .closing ∈ past) (unparted : ∀ e ∈ past, e.isParting = false)
      (pass : LastPass duty (sinceClose past)) (uncut : ∀ e ∈ sinceClose past, e.isCut = false) :
      Fits reporter past (.passing duty true)
  | stuck (asked : .closing ∈ past) (unparted : ∀ e ∈ past, e.isParting = false)
      (once : (sinceClose past).countP Event.begins ≤ 1) (cut : ∃ fault, .cut fault ∈ sinceClose past) :
      Fits reporter past .stuck
  | finished (asked : .closing ∈ past) (uncut : ∀ e ∈ sinceClose past, e.isCut = false)
      (once : if reporter.isSome then ∃ duty, LastPass duty (sinceClose past)
        else ∀ e ∈ sinceClose past, e.begins = false)
      (parted : if (reporter.map Reporter.closes).getD false then Parted past
        else ∀ e ∈ past, e.isParting = false) :
      Fits reporter past .finished

variable {reporter : Option Reporter} {past events : List Event} {s next : Stage} {duty : Duty} {asked : Bool}

theorem not_mem_append_closing (unasked : .closing ∉ past) (tame : ∀ e ∈ events, e.isClosing = false) :
    .closing ∉ past ++ events := by
  rw [List.mem_append]
  rintro (old | new)
  · exact unasked old
  · cases tame _ new

theorem unparted_append (unparted : ∀ e ∈ past, e.isParting = false) (tame : ∀ e ∈ events, e.isParting = false) :
    ∀ e ∈ past ++ events, e.isParting = false := List.forall_mem_append.mpr ⟨unparted, tame⟩

theorem Parted.append (parted : Parted past) (after : ∀ e ∈ events, e.isCall = false ∧ e.begins = false) :
    Parted (past ++ events) := by
  cases parted with
  | mk first last =>
    rw [List.append_assoc]
    exact .mk first (List.forall_mem_append.mpr ⟨last, after⟩)

/-- Events that are tame do not matter, unless the loop is over and the reporter is called. -/
theorem Stage.Fits.append (fits : s.Fits reporter past) (tame : ∀ e ∈ events, e.isTame = true)
    (uncalled : s = .finished → ∀ e ∈ events, e.isCall = false) : s.Fits reporter (past ++ events) := by
  have unclosing : ∀ e ∈ events, e.isClosing = false := fun e member => (Event.isTame_iff.mp (tame e member)).1
  have alone : ∀ e ∈ events, e.begins = false := fun e member => (Event.isTame_iff.mp (tame e member)).2.1
  have uncut' : ∀ e ∈ events, e.isCut = false := fun e member => (Event.isTame_iff.mp (tame e member)).2.2.1
  have unparted' : ∀ e ∈ events, e.isParting = false := fun e member => (Event.isTame_iff.mp (tame e member)).2.2.2
  cases fits with
  | ready unasked unparted =>
    exact .ready (not_mem_append_closing unasked unclosing) (unparted_append unparted unparted')
  | reporting unasked unparted =>
    exact .reporting (not_mem_append_closing unasked unclosing) (unparted_append unparted unparted')
  | asked asked unparted going =>
    refine .asked (List.mem_append_left _ asked) (unparted_append unparted unparted') ?_
    rw [sinceClose_append_of_mem asked]
    exact List.forall_mem_append.mpr ⟨going, fun e member => ⟨alone e member, uncut' e member⟩⟩
  | last asked unparted pass uncut =>
    refine .last (List.mem_append_left _ asked) (unparted_append unparted unparted') ?_ ?_
    · rw [sinceClose_append_of_mem asked]
      exact pass.append alone
    · rw [sinceClose_append_of_mem asked]
      exact List.forall_mem_append.mpr ⟨uncut, uncut'⟩
  | stuck asked unparted once cut =>
    refine .stuck (List.mem_append_left _ asked) (unparted_append unparted unparted') ?_ ?_
    · rw [sinceClose_append_of_mem asked, List.countP_append, countP_begins_eq_zero alone]
      exact once
    · obtain ⟨fault, member⟩ := cut
      rw [sinceClose_append_of_mem asked]
      exact ⟨fault, List.mem_append_left _ member⟩
  | finished asked uncut once parted =>
    refine .finished (List.mem_append_left _ asked) ?_ ?_ ?_
    · rw [sinceClose_append_of_mem asked]
      exact List.forall_mem_append.mpr ⟨uncut, uncut'⟩
    · rw [sinceClose_append_of_mem asked]
      split at once
      · next attached =>
        obtain ⟨duty, pass⟩ := once
        rw [if_pos attached]
        exact ⟨duty, pass.append alone⟩
      · next bare =>
        rw [if_neg bare]
        exact List.forall_mem_append.mpr ⟨once, alone⟩
    · split at parted
      · next closes =>
        rw [if_pos closes]
        exact parted.append fun e member => ⟨uncalled rfl e member, alone e member⟩
      · next remains =>
        rw [if_neg remains]
        exact unparted_append parted unparted'

theorem isTame_called {a : Activity} (same : a.duty? = some duty) : (Event.called a).isTame = true := by
  cases a with
  | observing | flushing => rfl
  | leaving => cases same

theorem isTame_came (a : Activity) (o : Outcome) (notices : List Notice) :
    ∀ e ∈ Event.came a o :: notices.map .told, e.isTame = true := by
  rw [List.forall_mem_cons]
  refine ⟨rfl, fun e member => ?_⟩
  obtain ⟨notice, _, rfl⟩ := List.mem_map.mp member
  rfl

theorem Stage.Pauses.fits {ending : List Event} (pauses : Pauses duty asked ending next)
    (fits : (Stage.passing duty asked).Fits reporter past) : next.Fits reporter (past ++ ending) := by
  cases pauses with
  | waits same =>
    refine fits.append (fun e member => ?_) (fun same => by cases same)
    rw [List.mem_singleton.mp member]
    exact isTame_called same
  | @breaks fault =>
    have unparted' : ∀ e ∈ [Event.cut fault, .answered (.error fault)], e.isParting = false := by
      intro e member
      rcases List.mem_pair.mp member with rfl | rfl <;> rfl
    have alone : ∀ e ∈ [Event.cut fault, .answered (.error fault)], e.begins = false := by
      intro e member
      rcases List.mem_pair.mp member with rfl | rfl <;> rfl
    have cut : Event.cut fault ∈ [Event.cut fault, .answered (.error fault)] := List.mem_cons_self ..
    cases fits with
    | reporting unasked unparted =>
      refine .ready (not_mem_append_closing unasked ?_) (unparted_append unparted unparted')
      intro e member
      rcases List.mem_pair.mp member with rfl | rfl <;> rfl
    | asked asked unparted going =>
      refine .stuck (List.mem_append_left _ asked) (unparted_append unparted unparted') ?_ ⟨fault, ?_⟩
      · rw [sinceClose_append_of_mem asked, List.countP_append, countP_begins_eq_zero alone,
          countP_begins_eq_zero fun e member => (going e member).1]
        exact Nat.zero_le 1
      · rw [sinceClose_append_of_mem asked]
        exact List.mem_append_right _ cut
    | last asked unparted pass uncut =>
      refine .stuck (List.mem_append_left _ asked) (unparted_append unparted unparted') ?_ ⟨fault, ?_⟩
      · rw [sinceClose_append_of_mem asked]
        exact Nat.le_of_eq (pass.append alone).countP
      · rw [sinceClose_append_of_mem asked]
        exact List.mem_append_right _ cut

/-- A close that comes between passes begins the last one at once. -/
theorem Stage.Fits.close (fits : Stage.ready.Fits reporter past) :
    (Stage.passing .close true).Fits reporter (past ++ [.closing, .began .close]) := by
  cases fits with
  | ready unasked unparted =>
    have since : sinceClose (past ++ [.closing, .began .close]) = [.began .close] :=
      sinceClose_append_closing unasked _
    refine .last (List.mem_append_right _ (List.mem_cons_self ..)) (unparted_append unparted ?_) ?_ ?_
    · intro e member
      rcases List.mem_pair.mp member with rfl | rfl <;> rfl
    · rw [since]
      exact .atOnce fun e member => by cases member
    · rw [since]
      exact List.forall_mem_singleton.mpr rfl

/-- Without a reporter there is nothing more to be done for a close. -/
theorem Stage.Fits.closeBare (fits : Stage.ready.Fits reporter past) (bare : reporter = none)
    (tame : ∀ e ∈ events, e.isTame = true) : Stage.finished.Fits reporter (past ++ .closing :: events) := by
  have plain : ∀ e ∈ events, e.begins = false ∧ e.isCut = false ∧ e.isParting = false :=
    fun e member => (Event.isTame_iff.mp (tame e member)).2
  cases fits with
  | ready unasked unparted =>
    refine .finished (List.mem_append_right _ (List.mem_cons_self ..)) ?_ ?_ ?_
    · rw [sinceClose_append_closing unasked]
      exact fun e member => (plain e member).2.1
    · rw [bare, sinceClose_append_closing unasked]
      exact fun e member => (plain e member).1
    · rw [bare]
      refine unparted_append unparted (List.forall_mem_cons.mpr ⟨rfl, ?_⟩)
      exact fun e member => (plain e member).2.2

/-- A close that comes during the pass of a report leaves that pass as it is. -/
theorem Stage.Fits.ask {answer : Except Fault (Option Summary)}
    (fits : (Stage.passing .report false).Fits reporter past) :
    (Stage.passing .report true).Fits reporter (past ++ [.closing, .answered answer]) := by
  cases fits with
  | reporting unasked unparted =>
    refine .asked (List.mem_append_right _ (List.mem_cons_self ..)) (unparted_append unparted ?_) ?_
    · intro e member
      rcases List.mem_pair.mp member with rfl | rfl <;> rfl
    · rw [sinceClose_append_closing unasked]
      exact List.forall_mem_singleton.mpr ⟨rfl, rfl⟩

/-- That pass has come to its end when the last one begins. -/
theorem Stage.Fits.farewell {tally summary : Summary} {o : Outcome} {notices : List Notice}
    (fits : (Stage.passing .report true).Fits reporter past) (calm : o.aborts = false) :
    (Stage.passing (.farewell summary) true).Fits reporter
      (past ++ (.came (.flushing .report tally) o :: notices.map .told ++ [.began (.farewell summary)])) := by
  cases fits with
  | last _ _ pass => cases pass
  | asked asked unparted going =>
    have tame := isTame_came (.flushing .report tally) o notices
    have since : sinceClose (past ++ (.came (.flushing .report tally) o :: notices.map .told ++
        [.began (.farewell summary)])) = sinceClose past ++ .came (.flushing .report tally) o ::
          notices.map .told ++ [.began (.farewell summary)] := by
      rw [sinceClose_append_of_mem asked, List.append_assoc]
    have still : ∀ e ∈ sinceClose past ++ .came (.flushing .report tally) o :: notices.map .told,
        e.begins = false ∧ e.isCut = false := by
      refine List.forall_mem_append.mpr ⟨going, fun e member => ?_⟩
      have plain := Event.isTame_iff.mp (tame e member)
      exact ⟨plain.2.1, plain.2.2.1⟩
    refine .last (List.mem_append_left _ asked) (unparted_append unparted ?_) ?_ ?_
    · refine List.forall_mem_append.mpr ⟨fun e member => (Event.isTame_iff.mp (tame e member)).2.2.2, ?_⟩
      exact List.forall_mem_singleton.mpr rfl
    · rw [since]
      exact .putOff still (List.mem_append_right _ (List.mem_cons_self ..)) calm fun e member => by cases member
    · rw [since, List.forall_mem_append]
      exact ⟨fun e member => (still e member).2, List.forall_mem_singleton.mpr rfl⟩

/-- After the last pass, a reporter that can be closed is. -/
theorem Stage.Fits.leave {r : Reporter} {answer : Option Summary} (fits : (Stage.passing duty true).Fits (some r) past)
    (late : duty.isLast = true) :
    Stage.finished.Fits (some r)
      (past ++ [if r.closes then .called (.leaving answer) else .answered (.ok answer)]) := by
  cases fits with
  | asked => cases late
  | last asked unparted pass uncut =>
    have plain : ∀ e ∈ [if r.closes then Event.called (.leaving answer) else .answered (.ok answer)],
        e.begins = false ∧ e.isCut = false := by
      rw [List.forall_mem_singleton]
      split <;> exact ⟨rfl, rfl⟩
    refine .finished (List.mem_append_left _ asked) ?_ ?_ ?_
    · rw [sinceClose_append_of_mem asked, List.forall_mem_append]
      exact ⟨uncut, fun e member => (plain e member).2⟩
    · rw [sinceClose_append_of_mem asked]
      exact ⟨duty, pass.append fun e member => (plain e member).1⟩
    · rw [Option.map_some, Option.getD_some]
      cases r.closes with
      | true => exact .mk unparted fun e member => by cases member
      | false => exact unparted_append unparted (List.forall_mem_singleton.mpr rfl)

/-- What leads from stage to stage keeps the history that belongs to them. -/
theorem Stage.Leads.fits (leads : s.Leads reporter events next) (fits : s.Fits reporter past) :
    next.Fits reporter (past ++ events) := by
  cases leads with
  | quiet quiet =>
    refine fits.append (fun e member => Event.isTame_of_isQuiet (quiet e member)) fun _ e member => ?_
    cases e with
    | called a => cases quiet _ member
    | _ => rfl
  | goesOn pauses =>
    rw [← List.append_assoc]
    exact pauses.fits (fits.append (isTame_came _ _ _) fun same => by cases same)
  | report pauses =>
    cases fits with
    | ready unasked unparted =>
      rw [List.append_cons]
      refine pauses.fits (.reporting (not_mem_append_closing unasked ?_) (unparted_append unparted ?_))
      all_goals exact List.forall_mem_singleton.mpr rfl
  | reported =>
    cases fits with
    | reporting unasked unparted =>
      have before : Stage.ready.Fits reporter past := .ready unasked unparted
      refine before.append (List.forall_mem_append.mpr ⟨isTame_came _ _ _, ?_⟩) fun same => by cases same
      exact List.forall_mem_singleton.mpr rfl
  | ask => exact fits.ask
  | @close ending next attached pauses =>
    have parts : past ++ .closing :: .began .close :: ending = past ++ [.closing, .began .close] ++ ending := by
      rw [List.append_assoc]
      rfl
    rw [parts]
    exact pauses.fits fits.close
  | closeBare bare =>
    refine fits.closeBare bare (List.forall_mem_append.mpr ⟨?_, List.forall_mem_singleton.mpr rfl⟩)
    exact fun e member => Event.isTame_of_isQuiet (isQuiet_of_told member)
  | farewell calm pauses =>
    rw [← List.append_assoc]
    exact pauses.fits (fits.farewell calm)
  | leave late attached parting =>
    subst attached
    obtain ⟨answer, rfl⟩ := parting
    rw [← List.append_assoc]
    exact (fits.append (isTame_came _ _ _) fun same => by cases same).leave late

end Course

end MetricTree
