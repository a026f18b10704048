import Mathlib.Data.List.Basic
import MetricTree.Registry.Request
import MetricTree.Proofs.TableLookup

namespace MetricTree.Registry

/-- What happens in a run of requests. -/
inductive Moment (κ α : Type) where
  | begins (request : Request κ α)
  | makes
  | stores (key : κ) (made : Option α)
  | ends (request : Request κ α) (reply : Reply α)

namespace Moment

variable {κ α : Type}

/-- How far the moment is in its request. -/
def stage : Moment κ α → Nat
  | .begins _ => 0
  | .makes => 1
  | .stores _ _ => 2
  | .ends _ _ => 3

def begun? : Moment κ α → Option (Request κ α)
  | .begins request => some request
  | _ => none

def reply? : Moment κ α → Option (Reply α)
  | .ends _ reply => some reply
  | _ => none

def stored? : Moment κ α → Option κ
  | .stores key _ => some key
  | _ => none

end Moment

/-- A moment of a run at the place of its request, and the registry that it leaves behind. A place is the position of a
request among those that are made one after the other, after the positions of the requests that it is made during. -/
structure Instant (κ α : Type) where
  place : List Nat
  moment : Moment κ α
  registry : Registry κ α

section

variable {κ α : Type} [DecidableEq κ]

/-- What was made is stored if the key has no value by then. -/
def storing (place : List Nat) (r : Registry κ α) (key : κ) : Except Fault (Option α) → List (Instant κ α)
  | .error _ => []
  | .ok made =>
    match r.get? key with
    | some _ => []
    | none => [⟨place, .stores key made, ⟨r.slots.insert key made⟩⟩]

def bracket (allow : κ → Except Fault Unit) (place : List Nat) (r : Registry κ α) (request : Request κ α)
    (within : List (Instant κ α)) : List (Instant κ α) :=
  ⟨place, .begins request, r⟩ ::
    (within ++ [⟨place, .ends request (answer allow r request).1, (answer allow r request).2⟩])

mutual

/-- All that happens while a request is answered, in order. -/
def history (allow : κ → Except Fault Unit) (place : List Nat) (r : Registry κ α) :
    Request κ α → List (Instant κ α)
  | .obtain key during made =>
    bracket allow place r (.obtain key during made) <|
      match allow key, r.get? key with
      | .ok (), none =>
        ⟨place, .makes, r⟩ :: (historyAll allow place 0 r during ++
          storing place (answerAll allow r during).2 key made)
      | _, _ => []
  | .get key => bracket allow place r (.get key) []
  | .contains key => bracket allow place r (.contains key) []
  | .all => bracket allow place r .all []
termination_by structural request => request

/-- All that happens while requests are answered one after the other, where `n` of them came before. -/
def historyAll (allow : κ → Except Fault Unit) (place : List Nat) (n : Nat) (r : Registry κ α) :
    List (Request κ α) → List (Instant κ α)
  | [] => []
  | request :: rest =>
    history allow (place ++ [n]) r request ++ historyAll allow place (n + 1) (answer allow r request).2 rest
termination_by structural requests => requests

end

/-- The requests that are made while the request is answered. -/
def Request.during : Request κ α → List (Request κ α)
  | .obtain _ during _ => during
  | _ => []

omit [DecidableEq κ] in
theorem Request.induction {P : Request κ α → Prop}
    (step : ∀ request : Request κ α, (∀ inner ∈ request.during, P inner) → P request) (request : Request κ α) :
    P request :=
  @Request.rec κ α P (fun requests => ∀ inner ∈ requests, P inner)
    (fun key during made each => step (.obtain key during made) each)
    (fun key => step (.get key) (List.forall_mem_nil _)) (fun key => step (.contains key) (List.forall_mem_nil _))
    (step .all (List.forall_mem_nil _)) (List.forall_mem_nil _)
    (fun _ _ first rest => List.forall_mem_cons.mpr ⟨first, rest⟩) request

/-- What happens between the beginning and the end of a request: nothing, if it needs no maker, or its maker's run. -/
inductive Within (allow : κ → Except Fault Unit) (place : List Nat) (r : Registry κ α) :
    Request κ α → List (Instant κ α) → Prop
  | nothing {request : Request κ α} (same : (answer allow r request).2 = r)
      (served : ∀ {key during made}, request = .obtain key during made → allow key = .ok () →
        ∃ v, r.get? key = some v ∧ (answer allow r request).1 = .obtained (some v) []) :
      Within allow place r request []
  | made {key : κ} {during : List (Request κ α)} {made : Except Fault (Option α)} (allowed : allow key = .ok ())
      (missing : r.get? key = none) : Within allow place r (.obtain key during made)
        (⟨place, .makes, r⟩ :: (historyAll allow place 0 r during ++
          storing place (answerAll allow r during).2 key made))

theorem history_eq (allow : κ → Except Fault Unit) (place : List Nat) (r : Registry κ α) (request : Request κ α) :
    ∃ within, history allow place r request = bracket allow place r request within ∧
      Within allow place r request within := by
  cases request with
  | get key =>
    refine ⟨[], by rw [history], .nothing ?_ nofun⟩
    simp only [answer]
    split <;> rfl
  | contains key =>
    refine ⟨[], by rw [history], .nothing ?_ nofun⟩
    simp only [answer]
    split <;> rfl
  | all => exact ⟨[], by rw [history], .nothing (by rw [answer]) nofun⟩
  | obtain key during made =>
    rw [history]
    cases allowed : allow key with
    | error fault =>
      refine ⟨[], rfl, .nothing (by simp only [answer, allowed]) ?_⟩
      rintro _ _ _ ⟨⟩ passed
      cases allowed.symm.trans passed
    | ok =>
      cases found : r.get? key with
      | none => exact ⟨_, rfl, .made allowed found⟩
      | some v =>
        refine ⟨[], rfl, .nothing (by simp only [answer, allowed, found]) ?_⟩
        rintro _ _ _ ⟨⟩ _
        exact ⟨v, found, by simp only [answer, allowed, found]⟩

variable {allow : κ → Except Fault Unit} {place : List Nat} {r : Registry κ α} {request : Request κ α}

/-- A reply says what the registry holds when it is given. -/
def Agrees (allow : κ → Except Fault Unit) (r : Registry κ α) : Request κ α → Reply α → Prop
  | .obtain key _ _, .obtained value _ => allow key = .ok () ∧ r.get? key = value
  | .all, reply => reply = .values r.values
  | _, _ => True

/-- The instants that can come right after an instant. Only storing changes the registry. -/
inductive Follows (allow : κ → Except Fault Unit) : Instant κ α → Instant κ α → Prop
  | begins (a place request) : Follows allow a ⟨place, .begins request, a.registry⟩
  | makes {place key during made r} (allowed : allow key = .ok ()) (missing : r.get? key = none) :
      Follows allow ⟨place, .begins (.obtain key during made), r⟩ ⟨place, .makes, r⟩
  | stores (a place) {key made} (allowed : allow key = .ok ()) (missing : a.registry.get? key = none) :
      Follows allow a ⟨place, .stores key made, ⟨a.registry.slots.insert key made⟩⟩
  | ends (a place) {request reply} (agrees : Agrees allow a.registry request reply) :
      Follows allow a ⟨place, .ends request reply, a.registry⟩

/-- The instants that lead from one to another. -/
inductive Leads (allow : κ → Except Fault Unit) : Instant κ α → List (Instant κ α) → Instant κ α → Prop
  | nil (a) : Leads allow a [] a
  | cons {a b c rest} (first : Follows allow a b) (later : Leads allow b rest c) : Leads allow a (b :: rest) c

namespace Leads

variable {a b c : Instant κ α} {sooner later h : List (Instant κ α)}

theorem one (follows : Follows allow a b) : Leads allow a [b] b :=
  .cons follows (.nil b)

theorem append (first : Leads allow a sooner b) (second : Leads allow b later c) :
    Leads allow a (sooner ++ later) c := by
  induction first with
  | nil => exact second
  | cons follows _ ih => exact .cons follows (ih second)

/-- Every instant follows the one before it. -/
theorem split (leads : Leads allow a (sooner ++ b :: later) c) :
    ∃ last, Leads allow a sooner last ∧ Follows allow last b ∧ Leads allow b later c := by
  induction sooner generalizing a with
  | nil =>
    cases leads with
    | cons follows rest => exact ⟨a, .nil a, follows, rest⟩
  | cons i sooner ih =>
    cases leads with
    | cons follows rest =>
      obtain ⟨last, before, next, after⟩ := ih rest
      exact ⟨last, .cons follows before, next, after⟩

theorem eq_or_concat (leads : Leads allow a h c) : h = [] ∧ c = a ∨ ∃ earlier, h = earlier ++ [c] := by
  induction leads with
  | nil => exact .inl ⟨rfl, rfl⟩
  | @cons a b c rest _ _ ih =>
    rcases ih with ⟨rfl, rfl⟩ | ⟨earlier, rfl⟩
    · exact .inr ⟨[], rfl⟩
    · exact .inr ⟨b :: earlier, rfl⟩

end Leads

theorem agrees_answer (same : (answer allow r request).2 = r)
    (served : ∀ {key during made}, request = .obtain key during made → allow key = .ok () →
      ∃ v, r.get? key = some v ∧ (answer allow r request).1 = .obtained (some v) []) :
    Agrees allow r request (answer allow r request).1 := by
  cases request with
  | get | contains => trivial
  | all => rw [answer]; rfl
  | obtain key during made =>
    cases allowed : allow key with
    | error fault => simp only [answer, allowed]; trivial
    | ok =>
      obtain ⟨v, found, reply⟩ := served rfl allowed
      rw [reply]
      exact ⟨allowed, found⟩

/-- What a maker's run comes to: the product is stored unless the key has a value by then, and the value that stands is
the reply. -/
theorem leads_storing (place : List Nat) {key : κ} {during : List (Request κ α)} (made : Except Fault (Option α))
    {a : Instant κ α} (allowed : allow key = .ok ()) (missing : r.get? key = none)
    (same : a.registry = (answerAll allow r during).2) :
    ∃ b, Leads allow a (storing place a.registry key made) b ∧
      b.registry = (answer allow r (.obtain key during made)).2 ∧
      Agrees allow b.registry (.obtain key during made) (answer allow r (.obtain key during made)).1 := by
  simp only [answer, allowed, missing, settle, ← same]
  cases made with
  | error fault => exact ⟨a, .nil a, rfl, trivial⟩
  | ok made =>
    cases found : a.registry.get? key with
    | some v =>
      simp only [storing, found]
      exact ⟨a, .nil a, rfl, allowed, found⟩
    | none =>
      simp only [storing, found]
      refine ⟨_, .one (.stores a place allowed found), rfl, allowed, ?_⟩
      rw [get?, Table.get?_insert, if_pos rfl, Option.join_some]

theorem answerAll_cons (allow : κ → Except Fault Unit) (r : Registry κ α) (request : Request κ α)
    (rest : List (Request κ α)) :
    answerAll allow r (request :: rest) =
      ((answer allow r request).1 :: (answerAll allow (answer allow r request).2 rest).1,
        (answerAll allow (answer allow r request).2 rest).2) := by
  rw [answerAll]

/-- The history of requests leads to the registry that they leave. -/
theorem leads_historyAll_of {requests : List (Request κ α)}
    (each : ∀ request ∈ requests, ∀ place a, ∃ b, Leads allow a (history allow place a.registry request) b ∧
      b.registry = (answer allow a.registry request).2) (place : List Nat) (n : Nat) (a : Instant κ α) :
    ∃ b, Leads allow a (historyAll allow place n a.registry requests) b ∧
      b.registry = (answerAll allow a.registry requests).2 := by
  induction requests generalizing n a with
  | nil => exact ⟨a, by rw [historyAll]; exact .nil a, by rw [answerAll]⟩
  | cons request rest ih =>
    obtain ⟨b, first, between⟩ := each request List.mem_cons_self (place ++ [n]) a
    obtain ⟨c, second, final⟩ := ih (fun q member => each q (List.mem_cons_of_mem _ member)) (n + 1) b
    rw [between] at second final
    rw [historyAll, answerAll_cons]
    exact ⟨c, first.append second, final⟩

theorem leads_history (request : Request κ α) (place : List Nat) (a : Instant κ α) :
    ∃ b, Leads allow a (history allow place a.registry request) b ∧
      b.registry = (answer allow a.registry request).2 := by
  induction request using Request.induction generalizing place a with
  | step request ih =>
    obtain ⟨within, eq, inner⟩ := history_eq allow place a.registry request
    rw [eq, bracket]
    cases inner with
    | nothing same served =>
      have agrees := agrees_answer same served
      rw [same]
      exact ⟨_, .cons (.begins a place request) (.one (.ends ⟨place, _, a.registry⟩ place agrees)), rfl⟩
    | @made key during made allowed missing =>
      obtain ⟨b, nested, between⟩ :
          ∃ b, Leads allow ⟨place, .makes, a.registry⟩ (historyAll allow place 0 a.registry during) b ∧
            b.registry = (answerAll allow a.registry during).2 :=
        leads_historyAll_of ih place 0 ⟨place, .makes, a.registry⟩
      obtain ⟨c, stored, final, agrees⟩ := leads_storing place made allowed missing between
      rw [between] at stored
      rw [← final]
      exact ⟨_, .cons (.begins a place _) (.cons (.makes allowed missing)
        ((nested.append stored).append (.one (.ends c place agrees)))), rfl⟩

theorem leads_historyAll (requests : List (Request κ α)) (place : List Nat) (n : Nat) (a : Instant κ α) :
    ∃ b, Leads allow a (historyAll allow place n a.registry requests) b ∧
      b.registry = (answerAll allow a.registry requests).2 :=
  leads_historyAll_of (fun request _ => leads_history request) place n a

/-- Every request that begins is answered as it is from the registry of its beginning. -/
def Whole (allow : κ → Except Fault Unit) (h : List (Instant κ α)) : Prop :=
  ∀ sooner place request r later, h = sooner ++ ⟨place, .begins request, r⟩ :: later →
    ∃ rest, ⟨place, .begins request, r⟩ :: later = history allow place r request ++ rest

namespace Whole

variable {sooner later h : List (Instant κ α)} {i : Instant κ α}

theorem nil : Whole allow ([] : List (Instant κ α)) := by
  intro sooner place request r later split
  cases sooner <;> cases split

theorem cons (quiet : i.moment.begun? = none) (whole : Whole allow h) : Whole allow (i :: h) := by
  intro sooner place request r later split
  cases sooner with
  | nil =>
    cases split
    cases quiet
  | cons j sooner =>
    cases split
    exact whole sooner place request r later rfl

theorem append (first : Whole allow sooner) (second : Whole allow later) : Whole allow (sooner ++ later) := by
  intro before place request r after split
  rcases List.append_eq_append_iff.mp split with ⟨between, rfl, rest⟩ | ⟨between, rest, same⟩
  · exact second between place request r after rest
  · cases between with
    | nil => exact second [] place request r after same.symm
    | cons j between =>
      cases same
      obtain ⟨rest, block⟩ := first before place request r between rest
      exact ⟨rest ++ later, (congrArg (· ++ later) block).trans (List.append_assoc _ _ _)⟩

end Whole

theorem whole_storing {key : κ} (made : Except Fault (Option α)) :
    Whole allow (storing place r key made) := by
  unfold storing
  split
  · exact .nil
  · split
    · exact .nil
    · exact .cons rfl .nil

theorem whole_historyAll_of {requests : List (Request κ α)}
    (each : ∀ request ∈ requests, ∀ place r, Whole allow (history allow place r request)) (place : List Nat) (n : Nat)
    (r : Registry κ α) : Whole allow (historyAll allow place n r requests) := by
  induction requests generalizing n r with
  | nil =>
    rw [historyAll]
    exact .nil
  | cons request rest ih =>
    rw [historyAll]
    exact (each request List.mem_cons_self _ r).append
      (ih (fun q member => each q (List.mem_cons_of_mem _ member)) (n + 1) _)

theorem whole_history (request : Request κ α) (place : List Nat) (r : Registry κ α) :
    Whole allow (history allow place r request) := by
  induction request using Request.induction generalizing place r with
  | step request ih =>
    obtain ⟨within, eq, inner⟩ := history_eq allow place r request
    have whole : Whole allow within := by
      cases inner with
      | nothing => exact .nil
      | made => exact .cons rfl ((whole_historyAll_of ih place 0 r).append (whole_storing _))
    intro sooner place' request' r' later split
    cases sooner with
    | nil =>
      rw [eq, bracket] at split
      cases split
      exact ⟨[], by rw [eq, bracket, List.append_nil]⟩
    | cons i sooner =>
      rw [eq, bracket, List.cons_append, List.cons.injEq] at split
      exact whole.append (.cons rfl .nil) sooner place' request' r' later split.2

theorem whole_historyAll (requests : List (Request κ α)) (place : List Nat) (n : Nat) (r : Registry κ α) :
    Whole allow (historyAll allow place n r requests) :=
  whole_historyAll_of (fun request _ => whole_history request) place n r

/-- The moments of one request come in their order, each of them once. -/
def Staged (a b : Instant κ α) : Prop :=
  a.place = b.place → a.moment.stage < b.moment.stage

theorem place_of_mem_storing {key : κ} {made : Except Fault (Option α)} {i : Instant κ α}
    (member : i ∈ storing place r key made) : i.place = place ∧ i.moment.stage = 2 := by
  unfold storing at member
  split at member
  · cases member
  · split at member
    · cases member
    · cases List.mem_singleton.mp member
      exact ⟨rfl, rfl⟩

theorem pairwise_storing {key : κ} {made : Except Fault (Option α)} :
    (storing place r key made).Pairwise Staged := by
  unfold storing
  split
  · exact .nil
  · split
    · exact .nil
    · exact List.pairwise_singleton _ _

/-- A run of requests stays below its place, and in its order. -/
theorem staged_historyAll_of {requests : List (Request κ α)}
    (each : ∀ request ∈ requests, ∀ place r, (∀ i ∈ history allow place r request, place <+: i.place) ∧
      (history allow place r request).Pairwise Staged) (place : List Nat) (n : Nat) (r : Registry κ α) :
    (∀ i ∈ historyAll allow place n r requests, ∃ m, n ≤ m ∧ place ++ [m] <+: i.place) ∧
      (historyAll allow place n r requests).Pairwise Staged := by
  induction requests generalizing n r with
  | nil =>
    rw [historyAll]
    exact ⟨List.forall_mem_nil _, .nil⟩
  | cons request rest ih =>
    obtain ⟨below, ordered⟩ := each request List.mem_cons_self (place ++ [n]) r
    obtain ⟨later, orderedLater⟩ :=
      ih (fun q member => each q (List.mem_cons_of_mem _ member)) (n + 1) (answer allow r request).2
    rw [historyAll]
    refine ⟨fun i member => ?_, List.pairwise_append.mpr ⟨ordered, orderedLater, fun a first b second same => ?_⟩⟩
    · rcases List.mem_append.mp member with first | second
      · exact ⟨n, Nat.le_refl n, below i first⟩
      · obtain ⟨m, after, inside⟩ := later i second
        exact ⟨m, by omega, inside⟩
    · obtain ⟨m, after, inside⟩ := later b second
      have equal : place ++ [n] = place ++ [m] :=
        (List.prefix_of_prefix_length_le (same ▸ below a first) inside (by simp)).eq_of_length (by simp)
      have : n = m := by simpa using equal
      omega

/-- Within a request, what has its place makes or stores, and everything else is deeper. -/
theorem Within.staged_of {within : List (Instant κ α)} (inner : Within allow place r request within)
    (each : ∀ inner ∈ request.during, ∀ place r, (∀ i ∈ history allow place r inner, place <+: i.place) ∧
      (history allow place r inner).Pairwise Staged) :
    (∀ i ∈ within, place <+: i.place ∧ (i.place = place → i.moment.stage = 1 ∨ i.moment.stage = 2)) ∧
      within.Pairwise Staged := by
  cases inner with
  | nothing => exact ⟨List.forall_mem_nil _, .nil⟩
  | @made key during made =>
    obtain ⟨below, ordered⟩ := staged_historyAll_of each place 0 r
    have deeper : ∀ i ∈ historyAll allow place 0 r during, place <+: i.place ∧ place ≠ i.place := by
      intro i member
      obtain ⟨m, _, inside⟩ := below i member
      refine ⟨(List.prefix_append _ _).trans inside, fun same => ?_⟩
      have := inside.length_le
      rw [← same, List.length_append, List.length_singleton] at this
      omega
    refine ⟨List.forall_mem_cons.mpr ⟨⟨List.prefix_refl _, fun _ => .inl rfl⟩, fun i member => ?_⟩,
      List.pairwise_cons.mpr ⟨fun i member same => ?_,
        List.pairwise_append.mpr ⟨ordered, pairwise_storing, fun a nested b stored same => ?_⟩⟩⟩
    · rcases List.mem_append.mp member with nested | stored
      · exact ⟨(deeper i nested).1, fun same => absurd same.symm (deeper i nested).2⟩
      · exact ⟨(place_of_mem_storing stored).1 ▸ List.prefix_refl _, fun _ => .inr (place_of_mem_storing stored).2⟩
    · rcases List.mem_append.mp member with nested | stored
      · exact absurd same (deeper i nested).2
      · rw [(place_of_mem_storing stored).2]
        exact Nat.one_lt_two
    · exact absurd ((place_of_mem_storing stored).1.symm.trans same.symm) (deeper a nested).2

theorem staged_history (request : Request κ α) (place : List Nat) (r : Registry κ α) :
    (∀ i ∈ history allow place r request, place <+: i.place) ∧ (history allow place r request).Pairwise Staged := by
  induction request using Request.induction generalizing place r with
  | step request ih =>
    obtain ⟨within, eq, inner⟩ := history_eq allow place r request
    obtain ⟨below, ordered⟩ := inner.staged_of ih
    rw [eq, bracket]
    refine ⟨List.forall_mem_cons.mpr ⟨List.prefix_refl _, fun i member => ?_⟩,
      List.pairwise_cons.mpr ⟨fun i member same => ?_,
        List.pairwise_append.mpr ⟨ordered, List.pairwise_singleton _ _, fun a member b last same => ?_⟩⟩⟩
    · rcases List.mem_append.mp member with inner | last
      · exact (below i inner).1
      · exact List.mem_singleton.mp last ▸ List.prefix_refl _
    · rcases List.mem_append.mp member with inner | last
      · have := (below i inner).2 same.symm
        show 0 < i.moment.stage
        omega
      · cases List.mem_singleton.mp last
        exact Nat.zero_lt_succ 2
    · cases List.mem_singleton.mp last
      have := (below a member).2 same
      show a.moment.stage < 3
      omega

theorem Within.staged {within : List (Instant κ α)} (inner : Within allow place r request within) :
    (∀ i ∈ within, place <+: i.place ∧ (i.place = place → i.moment.stage = 1 ∨ i.moment.stage = 2)) ∧
      within.Pairwise Staged :=
  inner.staged_of fun request _ => staged_history request

theorem staged_historyAll (requests : List (Request κ α)) (place : List Nat) (n : Nat) (r : Registry κ α) :
    (historyAll allow place n r requests).Pairwise Staged :=
  (staged_historyAll_of (fun request _ => staged_history request) place n r).2

/-- The replies to the requests that are made right at a place. -/
def repliesAt (place : List Nat) (h : List (Instant κ α)) : List (Reply α) :=
  h.filterMap fun i => if i.place.dropLast = place then i.moment.reply? else none

omit [DecidableEq κ] in
theorem repliesAt_append (place : List Nat) (sooner later : List (Instant κ α)) :
    repliesAt place (sooner ++ later) = repliesAt place sooner ++ repliesAt place later :=
  List.filterMap_append

theorem repliesAt_history (request : Request κ α) (place : List Nat) (n : Nat) (r : Registry κ α) :
    repliesAt place (history allow (place ++ [n]) r request) = [(answer allow r request).1] := by
  obtain ⟨within, eq, inner⟩ := history_eq allow (place ++ [n]) r request
  have silent : repliesAt place within = [] := by
    refine List.filterMap_eq_nil_iff.mpr fun i member => ?_
    obtain ⟨⟨deep, below⟩, own⟩ := inner.staged.1 i member
    cases deep with
    | nil =>
      rw [List.append_nil] at below
      rw [← below, List.dropLast_concat, if_pos rfl]
      rcases own below.symm with makes | stores
      · cases moment : i.moment <;> rw [moment] at makes <;> first | rfl | cases makes
      · cases moment : i.moment <;> rw [moment] at stores <;> first | rfl | cases stores
    | cons m deep =>
      refine if_neg fun same => ?_
      have := congrArg List.length same
      simp only [← below, List.length_dropLast, List.length_append, List.length_cons, List.length_nil] at this
      omega
  rw [eq, bracket, ← List.singleton_append, repliesAt_append, repliesAt_append, silent]
  simp only [repliesAt, List.filterMap_cons, List.dropLast_concat, if_pos, Moment.reply?, List.filterMap_nil,
    List.nil_append]

/-- The replies at the place of a run are those of the run. -/
theorem repliesAt_historyAll (requests : List (Request κ α)) (place : List Nat) (n : Nat) (r : Registry κ α) :
    repliesAt place (historyAll allow place n r requests) = (answerAll allow r requests).1 := by
  induction requests generalizing n r with
  | nil =>
    rw [historyAll, answerAll]
    rfl
  | cons request rest ih =>
    rw [historyAll, answerAll_cons, repliesAt_append, repliesAt_history, ih, List.singleton_append]

end

end MetricTree.Registry
