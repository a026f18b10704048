import MetricTree.Log.Request
import MetricTree.Work

namespace MetricTree.Log

/-- Is a level asked for at all? -/
def isGiven : Value → Bool
  | .null => false
  | _ => true

/-- The root logger as it stands: its level, how many handlers write its lines, and the mark of a logger that is
configured. -/
structure Root where
  level : Int
  handlers : Nat
  marked : Bool

theorem eq_null_of_isGiven {level : Value} (silent : isGiven level = false) : level = .null := by
  cases level with
  | null => rfl
  | _ => cases silent

namespace Root

def unconfigured : Root := ⟨0, 0, false⟩

/-- Sets the level, and then adds a handler and the mark if there is no mark yet. A marked root without a level asked
for is left alone. -/
def configure (level : Value) : Work Root Unit := do
  let root ← get
  unless root.marked && !isGiven level do
    let n ← ofExcept (resolveLevel level)
    modify ({ · with level := n })
    unless root.marked do
      modify fun root => { root with handlers := root.handlers + 1 }
      modify ({ · with marked := true })

end Root

namespace Request

/-- The level that a request configures the root logger with. Asking for a logger comes without one. -/
def asked? : Request → Option Value
  | .configure level => some level
  | .logger _ => some .null
  | .resolve _ => none
  | .emit .. => none

end Request

def Reply.isRefused : Reply → Bool
  | .refused _ => true
  | _ => false

/-- The root logger that a request leaves, be it granted or not. -/
def Root.take (root : Root) (r : Request) : Root :=
  match r.asked? with
  | none => root
  | some level =>
    match (configure level).run root with
    | .ok _ left => left
    | .error _ left => left

def Root.after (root : Root) (requests : List Request) : Root := requests.foldl take root

namespace Config

variable {c after : Config} {origin : Origin} {r : Request} {level : Value} {levels : List Value} {fault : Fault}

/-- The configuration that several requests leave. -/
def afterAll (origin : Origin) (c : Config) (requests : List Request) : Config :=
  requests.foldl (fun c r => (c.answer origin r).2) c

/-- The levels that were asked for, if only to configure, in the requests that were granted. -/
def granted (origin : Origin) : Config → List Request → List Value
  | _, [] => []
  | c, r :: rest =>
    (if (c.answer origin r).1.isRefused then [] else r.asked?.toList) ++ granted origin (c.answer origin r).2 rest

/-- The root logger of a configuration. -/
def root (c : Config) : Root := ⟨c.level, c.handlers rootName, c.attached⟩

theorem configure_eq (c : Config) (level : Value) : c.configure level =
    if c.attached && !isGiven level then .ok c else (resolveLevel level).map (⟨·, true⟩) := by
  obtain ⟨n, _ | _⟩ := c <;> cases level <;> rfl

theorem run_configure (c : Config) (level : Value) : (Root.configure level).run c.root = match c.configure level with
    | .ok after => .ok () after.root
    | .error fault => .error fault c.root := by
  rw [configure_eq]
  obtain ⟨n, _ | _⟩ := c
  · rw [Root.configure, Work.run_get_bind]
    cases resolveLevel level <;> rfl
  · simp only [Root.configure, Work.run_get_bind, root]
    cases isGiven level
    · rfl
    · cases resolveLevel level <;> rfl

/-- A request that configures is refused just if its level is, and then leaves the configuration as it was. -/
theorem answer_of_asked (asked : r.asked? = some level) :
    (∃ after, c.configure level = .ok after ∧ (c.answer origin r).1.isRefused = false ∧ (c.answer origin r).2 = after) ∨
      ∃ fault, c.configure level = .error fault ∧ c.answer origin r = (.refused fault, c) := by
  cases r with
  | configure asking =>
    cases asked
    cases configured : c.configure level with
    | ok after =>
      refine .inl ⟨after, rfl, ?_⟩
      rw [answer, configured]
      exact ⟨rfl, rfl⟩
    | error fault =>
      refine .inr ⟨fault, rfl, ?_⟩
      rw [answer, configured]
  | logger name =>
    cases asked
    cases configured : c.configure .null with
    | ok after =>
      refine .inl ⟨after, rfl, ?_⟩
      rw [answer, configured]
      exact ⟨rfl, rfl⟩
    | error fault =>
      refine .inr ⟨fault, rfl, ?_⟩
      rw [answer, configured]
  | resolve _ => cases asked
  | emit _ _ _ _ _ => cases asked

theorem answer_of_not_asked (silent : r.asked? = none) : (c.answer origin r).2 = c := by
  cases r with
  | configure _ => cases silent
  | logger _ => cases silent
  | resolve level =>
    rw [answer]
    cases resolveLevel level <;> rfl
  | emit logger level message arguments extras =>
    simp only [answer]
    split <;> rfl

/-- The root logger goes through the requests as the configuration does. -/
theorem root_take (origin : Origin) (c : Config) (r : Request) : c.root.take r = (c.answer origin r).2.root := by
  cases asked : r.asked? with
  | none => rw [answer_of_not_asked asked, Root.take, asked]
  | some level =>
    simp only [Root.take, asked, run_configure]
    rcases @answer_of_asked c origin r level asked with ⟨after, configured, _, same⟩ | ⟨fault, configured, same⟩
    · rw [configured, same]
    · rw [configured, same]

theorem root_after (origin : Origin) (c : Config) (requests : List Request) :
    c.root.after requests = (c.afterAll origin requests).root := by
  induction requests generalizing c with
  | nil => rfl
  | cons r rest ih => exact (congrArg (Root.after · rest) (root_take origin c r)).trans (ih _)

/-- What the levels that were granted so far have made of a configuration: the last one that was given counts. -/
structure Settled (levels : List Value) (c : Config) : Prop where
  attached : c.attached = !levels.isEmpty
  given : ∀ {level}, (levels.filter isGiven).getLast? = some level → resolveLevel level = .ok c.level
  silent : levels.filter isGiven = [] → c.level = if levels.isEmpty then 0 else info

theorem Settled.configure (settled : Settled levels c) (configured : c.configure level = .ok after) :
    Settled (levels ++ [level]) after := by
  obtain ⟨attached, given, silent⟩ := settled
  have filled : (levels ++ [level]).isEmpty = false := by simp
  rw [configure_eq] at configured
  split at configured
  · next again =>
    -- The root logger is configured already, and no level is asked for.
    cases configured
    rw [Bool.and_eq_true, Bool.not_eq_true'] at again
    have same : (levels ++ [level]).filter isGiven = levels.filter isGiven := by simp [again.2]
    have before : levels.isEmpty = false := by
      rw [attached, Bool.not_eq_true'] at again
      exact again.1
    refine ⟨by rw [again.1, filled]; rfl, fun last => given (same ▸ last), fun none => ?_⟩
    rw [silent (same ▸ none), before, filled]
  · next first =>
    cases resolved : resolveLevel level with
    | error fault =>
      rw [resolved] at configured
      cases configured
    | ok n =>
      rw [resolved] at configured
      cases configured
      cases asking : isGiven level with
      | true =>
        have ends : (levels ++ [level]).filter isGiven = levels.filter isGiven ++ [level] := by simp [asking]
        refine ⟨by rw [filled]; rfl, fun last => ?_, fun none => ?_⟩
        · rw [ends, List.getLast?_concat] at last
          cases last
          exact resolved
        · exact absurd (ends.symm.trans none) (by simp)
      | false =>
        -- Without a level asked for, this can only be the first configuration.
        have new : levels = [] := by
          rw [attached, asking] at first
          simpa using first
        subst new
        have nothing : ([] ++ [level]).filter isGiven = [] := by simp [asking]
        refine ⟨rfl, fun last => ?_, fun _ => ?_⟩
        · rw [nothing] at last
          cases last
        · cases eq_null_of_isGiven asking
          cases resolved
          rfl

theorem Settled.answer (settled : Settled levels c) (origin : Origin) (r : Request) :
    Settled (levels ++ if (c.answer origin r).1.isRefused then [] else r.asked?.toList) (c.answer origin r).2 := by
  cases asked : r.asked? with
  | none =>
    rw [answer_of_not_asked asked, Option.toList_none, ite_self, List.append_nil]
    exact settled
  | some level =>
    rcases @answer_of_asked c origin r level asked with ⟨after, configured, granted, same⟩ | ⟨fault, _, same⟩
    · rw [granted, same]
      exact settled.configure configured
    · rw [same]
      exact (List.append_nil levels).symm ▸ settled

theorem Settled.afterAll (settled : Settled levels c) (origin : Origin) (requests : List Request) :
    Settled (levels ++ granted origin c requests) (c.afterAll origin requests) := by
  induction requests generalizing levels c with
  | nil => exact (List.append_nil levels).symm ▸ settled
  | cons r rest ih =>
    have next := ih (settled.answer origin r)
    rwa [List.append_assoc] at next

theorem settled_unconfigured : Settled [] unconfigured := ⟨rfl, nofun, fun _ => rfl⟩

/-- In the course of requests to an unconfigured log, whatever levels they ask for: the root logger has one handler once
a request that configures it has been granted, and none before. From then on its level is the last one that was given
and granted, or that of information if none was. Asking without a level changes nothing any more. What is refused
leaves everything as it was. -/
theorem configuration_settled (origin : Origin) (requests : List Request) :
    let c := unconfigured.afterAll origin requests
    let root := Root.unconfigured.after requests
    let levels := granted origin unconfigured requests
    root = c.root ∧ root.handlers = (if levels = [] then 0 else 1) ∧
    (levels = [] → root.level = 0) ∧
    (levels ≠ [] → (∀ level, (levels.filter isGiven).getLast? = some level → resolveLevel level = .ok root.level) ∧
      (levels.filter isGiven = [] → root.level = info)) ∧
    (∀ r, levels ≠ [] → r.asked? = some .null →
      (c.answer origin r).1.isRefused = false ∧ (c.answer origin r).2 = c ∧ root.take r = root) ∧
    ∀ r level fault, r.asked? = some level → (c.answer origin r).1 = .refused fault →
      (c.answer origin r).2 = c ∧ (Root.configure level).run root = .error fault root := by
  intro c root levels
  have same : root = c.root := root_after origin unconfigured requests
  obtain ⟨attached, given, silent⟩ : Settled levels c := settled_unconfigured.afterAll origin requests
  rw [same]
  refine ⟨rfl, ?_, fun none => ?_, fun some => ⟨fun level last => given last, fun none => ?_⟩, fun r some asked => ?_,
    fun r level fault asked refused => ?_⟩
  · have counted : c.root.handlers = if c.attached then 1 else 0 := by simp [Config.root, handlers]
    rw [counted, attached]
    cases levels <;> rfl
  · have unset := silent (by rw [none]; rfl)
    rw [none] at unset
    exact unset
  · have default := silent none
    rw [List.isEmpty_eq_false_iff.mpr some] at default
    exact default
  · have again : c.configure .null = .ok c := by
      rw [configure_eq, attached, List.isEmpty_eq_false_iff.mpr some]
      rfl
    rcases @answer_of_asked c origin r .null asked with ⟨after, configured, granted, left⟩ | ⟨fault, configured, _⟩
    · cases again.symm.trans configured
      rw [root_take origin, left]
      exact ⟨granted, rfl, rfl⟩
    · cases again.symm.trans configured
  · rcases @answer_of_asked c origin r level asked with ⟨after, _, granted, _⟩ | ⟨other, configured, left⟩
    · rw [refused] at granted
      cases granted
    · rw [left] at refused
      cases refused
      rw [left, run_configure, configured]
      exact ⟨rfl, rfl⟩

/-- Before any request is granted the level is that of a logger for which none is set, not that of information. -/
theorem configuration_unsettled :
    let origin : Origin := ⟨.int 0, "MainThread"⟩
    let requests : List Request := [.configure (.list [])]
    let c := unconfigured.afterAll origin requests
    (granted origin unconfigured requests).filter isGiven = [] ∧ c.level = 0 ∧ c.level ≠ info ∧
      (Root.unconfigured.after requests).level ≠ info := by
  exact ⟨rfl, rfl, by decide, by decide⟩

end Config

end MetricTree.Log
