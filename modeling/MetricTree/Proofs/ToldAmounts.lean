import MetricTree.Proofs.CounterConservation
import MetricTree.Proofs.WholePass

namespace MetricTree

theorem Handle.eq_of_parts {h k : Handle} (scope : h.scope = k.scope) (name : h.name = k.name) : h = k := by
  cases h
  cases k
  exact Handle.mk.injEq .. ▸ ⟨scope, name⟩

namespace Job

def handle : Job → Handle
  | .counter h => h
  | .gauge h => h

def isCounter : Job → Bool
  | .counter _ => true
  | .gauge _ => false

variable {job other : Job}

theorem handle_scope : job.handle.scope = job.scope := by
  cases job <;> rfl

theorem eq_of_handle (kind : job.isCounter = other.isCounter) (same : job.handle = other.handle) : job = other := by
  cases job with
  | counter h =>
    cases other with
    | counter k => exact congrArg Job.counter same
    | gauge k => cases kind
  | gauge h =>
    cases other with
    | counter k => cases kind
    | gauge k => exact congrArg Job.gauge same

end Job

namespace Tree

/-- Is it this metric that the reporter is told of? That is one in its scope, of its kind, under its full name. -/
def isOf (t : Tree) (job : Job) (seen : Text × Observation) : Bool :=
  seen.1 = job.scope ∧ t.fullName? job.handle = some seen.2.name ∧ seen.2.isCounter = job.isCounter

variable {t u : Tree} {job other : Job} {seen : Text × Observation}

theorem isOf_iff : t.isOf job seen = true ↔
    seen.1 = job.scope ∧ t.fullName? job.handle = some seen.2.name ∧ seen.2.isCounter = job.isCounter :=
  decide_eq_true_iff

theorem isOf_congr (same : ∀ h, u.fullName? h = t.fullName? h) : u.isOf job = t.isOf job := by
  funext seen
  simp only [isOf, same]

/-- Later names do not change what was told of in a scope that is known already. -/
theorem isOf_of_extends (extended : u.Extends t) (present : (t.scope? seen.1).isSome) :
    u.isOf job seen = t.isOf job seen := by
  rw [Bool.eq_iff_iff, isOf_iff, isOf_iff]
  refine and_congr_right fun here => and_congr_left' ?_
  rw [here, ← Job.handle_scope, scope?_isSome_iff] at present
  obtain ⟨name, known⟩ := Option.isSome_iff_exists.mp present
  rw [known, extended.names known]

/-- What is told of one metric is told of no other. -/
theorem isOf_qualified {s : Scope} {o : Observation} (atScope : t.scope? job.scope = some s)
    (name : o.name = s.qualify t.separator job.handle.name) (kind : o.isCounter = job.isCounter) :
    t.isOf other (job.scope, o) = true ↔ other = job := by
  rw [isOf_iff]
  constructor
  · rintro ⟨inScope, named, kinds⟩
    rw [fullName?, Job.handle_scope, ← inScope, atScope, Option.map_some, name, Option.some.injEq] at named
    have scopes : other.handle.scope = job.handle.scope := by
      rw [Job.handle_scope, Job.handle_scope]
      exact inScope.symm
    exact Job.eq_of_handle (kinds.symm.trans kind) (Handle.eq_of_parts scopes (Scope.qualify_injective named))
  · rintro rfl
    exact ⟨rfl, by rw [fullName?, Job.handle_scope, atScope, Option.map_some, name], kind⟩

/-- Of all that is told, the deltas or values of one metric. -/
def amountsOf (t : Tree) (job : Job) (seen : List (Text × Observation)) : List Number :=
  (seen.filter (t.isOf job)).map (·.2.amount)

theorem amountsOf_append (t : Tree) (job : Job) (seen more : List (Text × Observation)) :
    t.amountsOf job (seen ++ more) = t.amountsOf job seen ++ t.amountsOf job more := by
  rw [amountsOf, List.filter_append, List.map_append]
  rfl

theorem amountsOf_congr (same : ∀ h, u.fullName? h = t.fullName? h) : u.amountsOf job = t.amountsOf job := by
  funext seen
  rw [amountsOf, amountsOf, isOf_congr same]

theorem amountsOf_qualified {s : Scope} {o : Observation} (atScope : t.scope? job.scope = some s)
    (name : o.name = s.qualify t.separator job.handle.name) (kind : o.isCounter = job.isCounter) :
    t.amountsOf other [(job.scope, o)] = if other = job then [o.amount] else [] := by
  rw [amountsOf, List.filter_singleton]
  by_cases same : other = job
  · rw [(isOf_qualified atScope name kind).mpr same, if_pos same, cond_true]
    rfl
  · have differs : t.isOf other (job.scope, o) = false :=
      Bool.not_eq_true _ ▸ fun isOf => same ((isOf_qualified atScope name kind).mp isOf)
    rw [differs, if_neg same, cond_false]
    rfl

end Tree

namespace Course

/-- What the reporter was told of a metric, one after the other, whatever came of it: deltas, or values. -/
def told (t : Tree) (job : Job) (past : List Event) : List Number :=
  t.amountsOf job (past.filterMap Event.observed?)

variable {c : Course} {t u : Tree} {job : Job} {past events : List Event}

theorem told_append : told t job (past ++ events) = told t job past ++ told t job events := by
  rw [told, List.filterMap_append, Tree.amountsOf_append]
  rfl

theorem told_eq_nil (calls : events.filterMap Event.observed? = []) : told t job events = [] := by
  rw [told, calls]
  rfl

theorem told_congr (names : ∀ seen ∈ events.filterMap Event.observed?, u.isOf job seen = t.isOf job seen) :
    told u job events = told t job events := by
  rw [told, Tree.amountsOf, List.filter_congr names]
  rfl

theorem told_of_extends (registered : c.Registered) (extended : u.Extends c.loop.tree) :
    told u job c.past = told c.loop.tree job c.past :=
  told_congr fun seen member => Tree.isOf_of_extends extended (registered seen member)

theorem Registered.take {step : Step} (before : c.Registered) : (c.take step).Registered := by
  obtain ⟨events, past, effect⟩ := c.take_effect step
  intro seen member
  rw [past, List.filterMap_append, List.mem_append] at member
  cases effect with
  | granted asked run =>
    have change := Request.perform_change run
    rw [filterMap_granted change] at member
    exact change.extends.scope (before seen (member.resolve_right List.not_mem_nil))
  | sweep sweep calls _ =>
    rw [calls, Option.mem_toList] at member
    rcases member with old | new
    · exact sweep.extends.scope (before seen old)
    · subst new
      exact sweep.found_scope

theorem registered_opened (o : Opening) : (Course.opened o).Registered := by
  intro seen member
  rw [show (Course.opened o).past.filterMap Event.observed? = [] from filterMap_told _] at member
  cases member

end Course

end MetricTree
