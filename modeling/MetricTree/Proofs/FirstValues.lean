import Mathlib.Data.List.Infix
import MetricTree.Proofs.RegistryHistory

namespace MetricTree

theorem Table.values_eq_map_keys {κ α : Type} [DecidableEq κ] {t : Table κ (Option α)} (distinct : t.keys.Nodup) :
    t.values = t.keys.map fun key => (t.get? key).join := by
  rw [values, keys, List.map_map]
  refine List.map_congr_left fun entry member => ?_
  rw [Function.comp_apply, get?_of_mem_entries distinct member, Option.join_some]

namespace Registry

variable {κ α : Type} [DecidableEq κ]

/-- The keys that are stored in a history, as often as they are. -/
def stored (h : List (Instant κ α)) : List κ :=
  h.filterMap fun i => i.moment.stored?

omit [DecidableEq κ] in
theorem stored_append (sooner later : List (Instant κ α)) : stored (sooner ++ later) = stored sooner ++ stored later :=
  List.filterMap_append

theorem eraseDups_concat (keys : List κ) (key : κ) :
    (keys ++ [key]).eraseDups = if key ∈ keys then keys.eraseDups else keys.eraseDups ++ [key] := by
  rw [List.eraseDups_append]
  by_cases member : key ∈ keys
  · simp [List.removeAll, member]
  · simp [List.removeAll, member, List.eraseDups_cons]

theorem eraseDups_prefix (sooner later : List κ) : sooner.eraseDups <+: (sooner ++ later).eraseDups := by
  rw [List.eraseDups_append]
  exact List.prefix_append _ _

theorem nodup_eraseDups (keys : List κ) : keys.eraseDups.Nodup := by
  induction keys using List.reverseRecOn with
  | nil => exact List.nodup_nil
  | append_singleton keys key ih =>
    rw [eraseDups_concat]
    split
    · exact ih
    · rename_i fresh
      exact List.nodup_append_comm.mp (List.nodup_cons.mpr ⟨mt List.mem_eraseDups.mp fresh, ih⟩)

variable {allow : κ → Except Fault Unit} {a b c : Instant κ α} {h sooner later : List (Instant κ α)}

/-- Nothing takes a value away from its key. -/
theorem Follows.keeps (follows : Follows allow a b) {key : κ} {v : α} (held : a.registry.get? key = some v) :
    b.registry.get? key = some v := by
  cases follows with
  | begins | makes | ends => exact held
  | @stores _ _ other _ _ missing =>
    have apart : key ≠ other := fun same => by cases (same ▸ held).symm.trans missing
    simp only [get?, Table.get?_insert, if_neg apart]
    exact held

/-- Only keys that pass have values. -/
def Passed (allow : κ → Except Fault Unit) (r : Registry κ α) : Prop :=
  ∀ key v, r.get? key = some v → allow key = .ok ()

theorem Follows.passed (follows : Follows allow a b) (passed : Passed allow a.registry) :
    Passed allow b.registry := by
  cases follows with
  | begins | makes | ends => exact passed
  | @stores _ _ other _ allowed _ =>
    intro key v held
    by_cases same : key = other
    · exact same ▸ allowed
    · simp only [get?, Table.get?_insert, if_neg same] at held
      exact passed key v held

/-- The keys stand in the order in which they were first stored. -/
theorem Follows.keys (follows : Follows allow a b) {before : List κ}
    (keys : a.registry.slots.keys = before.eraseDups) :
    b.registry.slots.keys = (before ++ b.moment.stored?.toList).eraseDups := by
  cases follows with
  | begins | makes | ends => simpa [Moment.stored?] using keys
  | @stores _ _ key made _ _ =>
    simp only [Moment.stored?, Option.toList_some, eraseDups_concat]
    split
    · rename_i member
      rw [Table.keys_insert_of_mem (keys ▸ List.mem_eraseDups.mpr member), keys]
    · rename_i fresh
      rw [Table.keys_insert_of_not_mem (keys ▸ mt List.mem_eraseDups.mp fresh), keys]

namespace Leads

theorem keeps (leads : Leads allow a h c) {key : κ} {v : α} (held : a.registry.get? key = some v) :
    ∀ b ∈ h, b.registry.get? key = some v := by
  induction leads with
  | nil => exact List.forall_mem_nil _
  | cons follows _ ih => exact List.forall_mem_cons.mpr ⟨follows.keeps held, ih (follows.keeps held)⟩

theorem passed (leads : Leads allow a h c) (passed : Passed allow a.registry) :
    ∀ b ∈ h, Passed allow b.registry := by
  induction leads with
  | nil => exact List.forall_mem_nil _
  | cons follows _ ih => exact List.forall_mem_cons.mpr ⟨follows.passed passed, ih (follows.passed passed)⟩

theorem keys (leads : Leads allow a h c) (before : List κ) (keys : a.registry.slots.keys = before.eraseDups) :
    c.registry.slots.keys = (before ++ stored h).eraseDups := by
  induction leads generalizing before with
  | nil => rwa [stored, List.filterMap_nil, List.append_nil]
  | @cons a b c rest follows _ ih =>
    rw [ih _ (follows.keys keys), List.append_assoc, ← List.singleton_append, stored_append]
    cases same : b.moment.stored? <;> simp [stored, same]

/-- Each key keeps its value, and its place among the keys. -/
theorem pairwise (leads : Leads allow a h c) (before : List κ) (keys : a.registry.slots.keys = before.eraseDups) :
    h.Pairwise fun a b => (∀ key v, a.registry.get? key = some v → b.registry.get? key = some v) ∧
      a.registry.slots.keys <+: b.registry.slots.keys := by
  induction leads generalizing before with
  | nil => exact .nil
  | @cons a b c rest follows later ih =>
    refine List.pairwise_cons.mpr ⟨fun i member => ⟨fun key v held => later.keeps held i member, ?_⟩,
      ih _ (follows.keys keys)⟩
    obtain ⟨between, after, rfl⟩ := List.append_of_mem member
    obtain ⟨last, upTo, next, _⟩ := later.split
    rw [follows.keys keys, (upTo.append (.one next)).keys _ (follows.keys keys)]
    exact eraseDups_prefix _ _

end Leads

variable {place : List Nat} {r : Registry κ α} {request : Request κ α} {key : κ} {v : α}

theorem Within.eq_nil_of_get? {within : List (Instant κ α)} (inner : Within allow place r request within)
    (held : r.get? key = some v) (same : ∀ other during made, request = .obtain other during made → other = key) :
    within = [] := by
  cases inner with
  | nothing => rfl
  | made _ missing =>
    cases same _ _ _ rfl
    cases held.symm.trans missing

/-- A request that has begun ends as it is answered. -/
theorem Whole.answered (whole : Whole allow h) (split : h = sooner ++ ⟨place, .begins request, r⟩ :: later) :
    ∃ within rest, Within allow place r request within ∧
      later = within ++ ⟨place, .ends request (answer allow r request).1, (answer allow r request).2⟩ :: rest := by
  obtain ⟨rest, block⟩ := whole sooner place request r later split
  obtain ⟨within, eq, inner⟩ := history_eq allow place r request
  rw [eq, bracket, List.cons_append, List.cons.injEq, List.append_assoc] at block
  exact ⟨within, rest, inner, block.2⟩

/-- Where the key has a value, the value is the answer at once. -/
theorem Whole.served (whole : Whole allow h) (split : h = sooner ++ ⟨place, .begins request, r⟩ :: later)
    (allowed : allow key = .ok ()) (held : r.get? key = some v) :
    (request = .get key → later.head? = some ⟨place, .ends request (.found (some v)), r⟩) ∧
      ∀ during made, request = .obtain key during made →
        later.head? = some ⟨place, .ends request (.obtained (some v) []), r⟩ := by
  obtain ⟨within, rest, inner, rfl⟩ := whole.answered split
  constructor
  · rintro rfl
    rw [inner.eq_nil_of_get? held nofun]
    simp only [answer, allowed, held, List.nil_append, List.head?_cons]
  · rintro during made rfl
    rw [inner.eq_nil_of_get? held (by rintro _ _ _ ⟨⟩; rfl)]
    simp only [answer, allowed, held, List.nil_append, List.head?_cons]

theorem Leads.agrees {reply : Reply α} (leads : Leads allow a h c) (member : ⟨place, .ends request reply, r⟩ ∈ h) :
    Agrees allow r request reply := by
  obtain ⟨sooner, later, rfl⟩ := List.append_of_mem member
  obtain ⟨_, _, follows, _⟩ := leads.split
  cases follows with
  | ends _ _ agrees => exact agrees

/-- A maker runs right at the beginning of a request for a key without a value. -/
theorem Leads.begun_of_makes (leads : Leads allow a h c) (start : a.moment.begun? = none)
    (split : h = sooner ++ ⟨place, .makes, r⟩ :: later) :
    ∃ earlier key during made, sooner = earlier ++ [⟨place, .begins (.obtain key during made), r⟩] ∧
      r.get? key = none := by
  obtain ⟨last, before, follows, _⟩ := (split ▸ leads).split
  cases follows with
  | @makes _ key during made _ _ missing =>
    rcases before.eq_or_concat with ⟨_, rfl⟩ | ⟨earlier, rfl⟩
    · cases start
    · exact ⟨earlier, key, during, made, rfl, missing⟩

omit [DecidableEq κ] in
theorem ne_makes_of_staged (staged : h.Pairwise Staged) (split : h = sooner ++ ⟨place, .makes, r⟩ :: later) :
    ∀ i ∈ sooner ++ later, i.place = place → i.moment ≠ .makes := by
  subst split
  obtain ⟨_, after, before⟩ := List.pairwise_append.mp staged
  intro i member same makes
  rcases List.mem_append.mp member with first | second
  · have := before i first _ List.mem_cons_self same
    rw [makes] at this
    exact Nat.lt_irrefl _ this
  · have := (List.pairwise_cons.mp after).1 i second same.symm
    rw [makes] at this
    exact Nat.lt_irrefl _ this

/-- A maker that fails leaves what the requests that it made have left. -/
theorem Whole.failed {during : List (Request κ α)} {fault : Fault} (whole : Whole allow h)
    (split : h = sooner ++ ⟨place, .begins (.obtain key during (.error fault)), r⟩ :: later)
    (called : later.head? = some ⟨place, .makes, r⟩) :
    ∃ rest, later = ⟨place, .makes, r⟩ :: (historyAll allow place 0 r during ++
      ⟨place, .ends (.obtain key during (.error fault)) (.refused fault), (answerAll allow r during).2⟩ :: rest) := by
  obtain ⟨within, rest, inner, rfl⟩ := whole.answered split
  cases inner with
  | nothing => cases called
  | made allowed missing =>
    refine ⟨rest, ?_⟩
    simp only [storing, answer, allowed, missing, List.append_nil, List.cons_append]

theorem Leads.keys_of_split {i : Instant κ α} (leads : Leads allow a h c) (start : a.registry.slots.keys = [])
    (split : h = sooner ++ i :: later) : i.registry.slots.keys = (stored (sooner ++ [i])).eraseDups := by
  obtain ⟨last, before, follows, _⟩ := (split ▸ leads).split
  exact (before.append (.one follows)).keys [] start

/-- The first value of a key is its value for good, whatever makers do while they run: once a key has a value, every
request for it is answered with the value, and without a maker. A maker runs at most once in a request, right at its
beginning, and only if the key has no value then. What a request obtains is what the key has when it ends. A maker that
fails leaves the registry as the requests that it made have left it. The keys stand in the order in which they were
first stored. -/
theorem first_value_stands (allow : κ → Except Fault Unit) (requests : List (Request κ α)) :
    let h := historyAll allow [] 0 empty requests
    repliesAt [] h = (answerAll allow empty requests).1 ∧
    (h.Pairwise fun a b => ∀ key v, a.registry.get? key = some v → b.registry.get? key = some v) ∧
    (∀ sooner place request r later, h = sooner ++ ⟨place, .begins request, r⟩ :: later →
      (∃ within rest, later = within ++
        ⟨place, .ends request (answer allow r request).1, (answer allow r request).2⟩ :: rest) ∧
      ∀ a ∈ sooner, ∀ key v, a.registry.get? key = some v →
        (request = .get key → later.head? = some ⟨place, .ends request (.found (some v)), r⟩) ∧
        ∀ during made, request = .obtain key during made →
          later.head? = some ⟨place, .ends request (.obtained (some v) []), r⟩) ∧
    (∀ place key during made value replies r,
      ⟨place, .ends (.obtain key during made) (.obtained value replies), r⟩ ∈ h →
      answer allow r (.get key) = (.found value, r)) ∧
    (∀ sooner place r later, h = sooner ++ ⟨place, .makes, r⟩ :: later →
      (∃ earlier key during made, sooner = earlier ++ [⟨place, .begins (.obtain key during made), r⟩] ∧
        r.get? key = none) ∧
      ∀ i ∈ sooner ++ later, i.place = place → i.moment ≠ .makes) ∧
    (∀ sooner place key during fault r later,
      h = sooner ++ ⟨place, .begins (.obtain key during (.error fault)), r⟩ :: later →
      later.head? = some ⟨place, .makes, r⟩ →
      ∃ rest, later = ⟨place, .makes, r⟩ :: (historyAll allow place 0 r during ++
        ⟨place, .ends (.obtain key during (.error fault)) (.refused fault), (answerAll allow r during).2⟩ :: rest)) ∧
    (∀ sooner i later, h = sooner ++ i :: later → i.registry.slots.keys = (stored (sooner ++ [i])).eraseDups) ∧
    (h.Pairwise fun a b => a.registry.slots.keys <+: b.registry.slots.keys) ∧
    (∀ i ∈ h, i.registry.slots.keys.Nodup) ∧
    ∀ place reply r, ⟨place, .ends .all reply, r⟩ ∈ h → reply = .values (r.slots.keys.map r.get?) := by
  intro h
  obtain ⟨last, leads⟩ : ∃ last, Leads allow ⟨[], .makes, empty⟩ h last :=
    (leads_historyAll requests [] 0 ⟨[], .makes, empty⟩).imp fun _ => And.left
  have whole : Whole allow h := whole_historyAll requests [] 0 empty
  have distinct : ∀ i ∈ h, i.registry.slots.keys.Nodup := by
    intro i member
    obtain ⟨sooner, later, split⟩ := List.append_of_mem member
    rw [leads.keys_of_split rfl split]
    exact nodup_eraseDups _
  have kept : h.Pairwise _ := leads.pairwise [] rfl
  refine ⟨repliesAt_historyAll requests [] 0 empty, kept.imp fun both => both.1,
    fun sooner place request r later split => ⟨?_, fun a earlier key v held => ?_⟩,
    fun place key during made value replies r member => ?_,
    fun sooner place r later split => ⟨leads.begun_of_makes rfl split,
      ne_makes_of_staged (staged_historyAll requests [] 0 empty) split⟩,
    fun sooner place key during fault r later split => whole.failed split,
    fun sooner i later split => leads.keys_of_split rfl split, kept.imp fun both => both.2, distinct,
    fun place reply r member => ?_⟩
  · obtain ⟨within, rest, _, later⟩ := whole.answered split
    exact ⟨within, rest, later⟩
  · have now : r.get? key = some v :=
      (List.pairwise_append.mp (split ▸ kept)).2.2 a earlier _ List.mem_cons_self |>.1 key v held
    have allowed : allow key = .ok () :=
      leads.passed nofun a (show a ∈ h from split ▸ List.mem_append_left _ earlier) key v held
    exact whole.served split allowed now
  · obtain ⟨allowed, found⟩ := leads.agrees member
    simp only [answer, allowed, found]
  · rw [show reply = _ from leads.agrees member]
    exact congrArg Reply.values (Table.values_eq_map_keys (distinct _ member))

/-- While the maker of a key runs, the key is stored without a value and then gets one; the maker's own product comes
too late, and the key keeps its place. -/
example :
    let requests : List (Request Text Nat) :=
      [.obtain "a"
          [.obtain "a" [] (.ok none), .obtain "a" [.obtain "b" [] (.ok (some 3))] (.ok (some 1))]
          (.ok (some 2)),
        .all]
    (answerAll (fun _ => .ok ()) empty requests).1 =
        [.obtained (some 1) [.obtained none [], .obtained (some 1) [.obtained (some 3) []]], .values [some 1, some 3]] ∧
      stored (historyAll (fun _ => .ok ()) [] 0 empty requests) = ["a", "b", "a"] :=
  ⟨rfl, rfl⟩

end Registry

end MetricTree
