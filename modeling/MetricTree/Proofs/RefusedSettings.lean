import MetricTree.Proofs.PlainText
import MetricTree.Settings.Session

namespace MetricTree

open Identity

namespace Field

variable {α β : Type}

/-- The issues that are told of a reading. -/
def issuesOf : Except (List Issue) α → List Issue
  | .ok _ => []
  | .error issues => issues

theorem issuesOf_map (reading : Except (List Issue) α) (f : α → β) : issuesOf (reading.map f) = issuesOf reading := by
  cases reading <;> rfl

theorem issuesOf_both (first : Except (List Issue) α) (second : Except (List Issue) β) :
    issuesOf (both first second) = issuesOf first ++ issuesOf second := by
  cases first <;> cases second <;> simp [both, issuesOf]

theorem both_eq_ok {first : Except (List Issue) α} {second : Except (List Issue) β} {read : α × β} :
    both first second = .ok read ↔ first = .ok read.1 ∧ second = .ok read.2 := by
  obtain ⟨a, b⟩ := read
  cases first <;> cases second <;> simp [both]

theorem map_eq_ok {reading : Except (List Issue) α} {f : α → β} {b : β} :
    reading.map f = .ok b ↔ ∃ a, reading = .ok a ∧ f a = b := by
  cases reading <;> simp [Except.map]

theorem exists_error_iff {ε : Type} {reading : Except ε α} :
    (∃ fault, reading = .error fault) ↔ ¬∃ a, reading = .ok a := by
  cases reading <;> simp

theorem mapError_eq_ok {ε δ : Type} {reading : Except ε α} {f : ε → δ} {a : α} :
    reading.mapError f = .ok a ↔ reading = .ok a := by
  cases reading <;> simp [Except.mapError]

end Field

namespace Setting

theorem fieldName_injective {s t : Setting} (same : s.fieldName = t.fieldName) : s = t := by
  revert same
  cases s <;> cases t <;> decide +kernel

theorem isFor_title (s t : Setting) : Source.isFor s t.title = decide (s = t) := by
  rw [Bool.eq_iff_iff, Source.isFor, beq_iff_eq, decide_eq_true_iff]
  exact ⟨fun same => (fieldName_injective same).symm, fun same => congrArg fieldName same.symm⟩

theorem fieldName_eq (s : Setting) : s.fieldName = match s with
    | interval => "report_interval"
    | stem => "metrics_prefix"
    | separator => "metrics_separator"
    | level => "log_level" := by
  cases s <;> decide +kernel

theorem isFor_fieldName (s : Setting) : Source.isFor s s.fieldName = true := by
  rw [Source.isFor, fieldName_eq]
  cases s <;> decide +kernel

/-- A value is not accepted for a setting, and this is why. -/
def Rejects (v : Value) (refusal : Refusal) : Setting → Prop
  | interval => Settings.readInterval v = .error refusal
  | stem => Settings.readStem v = .error refusal
  | separator => Settings.readSeparator v = .error refusal
  | level => Settings.readLevel v = .error refusal

end Setting

namespace Source

variable {source : Source} {args : Table String Value} {s : Setting} {name : String} {v : Value}

/-- Both names that an argument may be told under are names of its setting. -/
theorem isFor_toldName (args : Table String Value) (s : Setting) : isFor s (toldName args s) = true := by
  have title : isFor s s.title = true := beq_self_eq_true _
  unfold toldName
  cases found : (args.entries.map (·.1)).find? fun name => name == s.title || name == s.fieldName with
  | none => exact title
  | some name =>
    have known := List.find?_some found
    rw [Bool.or_eq_true, beq_iff_eq, beq_iff_eq] at known
    rcases known with rfl | rfl
    · exact title
    · exact s.isFor_fieldName

/-- What is supplied for a setting is told under one of its names. -/
theorem isFor_of_supplied (supplied : source.supplied? args s = some (name, v)) : isFor s name = true := by
  simp only [supplied?, Option.orElse_eq_orElse, Option.orElse_eq_or, Option.or_eq_some_iff] at supplied
  rcases supplied with argument | ⟨_, outside⟩
  · obtain ⟨entry, _, same⟩ := Option.map_eq_some_iff.mp argument
    exact (Prod.mk.inj same).1 ▸ isFor_toldName args s
  · obtain ⟨text, _, same⟩ := Option.map_eq_some_iff.mp outside
    exact (Prod.mk.inj same).1 ▸ beq_self_eq_true s.fieldName

theorem variablesOf_empty (environment : Table String String) : VariableFile.variablesOf environment "" = .empty := by
  simp [VariableFile.variablesOf, VariableFile.withoutMark, VariableFile.unifyBreaks, VariableFile.readEntries]

/-- Arguments for the stem and the separator, under their titles. -/
def textArguments (stem separator : Text) : Table String Value :=
  ⟨[(Setting.stem.title, .text stem), (Setting.separator.title, .text separator)]⟩

theorem toldName_textArguments (p q : Text) (s : Setting) : toldName (textArguments p q) s = s.title := by
  have names : (textArguments p q).entries.map (·.1) = [Setting.stem.title, Setting.separator.title] := rfl
  rw [toldName, names]
  cases s <;> decide +kernel

theorem supplied_textArguments (p q : Text) (setting : Setting) :
    Source.empty.supplied? (textArguments p q) setting = match setting with
      | .stem => some ("METRICS_PREFIX", .text p)
      | .separator => some ("METRICS_SEPARATOR", .text q)
      | .interval | .level => none := by
  have inFile : VariableFile.variablesOf Source.empty.environment Source.empty.file = .empty := variablesOf_empty _
  rw [supplied?, argumentOf?, toldName_textArguments, inFile]
  simp only [textArguments, List.find?_cons, Setting.isFor_title]
  cases setting <;> rfl

end Source

theorem Identity.plain_iff {s : Text} : Plain s ↔ ¬s.toList.any isReserved = true := by
  simp [Plain]

namespace Settings

variable {source : Source} {args : Table String Value} {setting : Setting} {s : Settings} {issue : Issue} {α : Type}
  {otherwise a : α} {read : Value → Except Refusal α}

/-- What is read for one setting. -/
def reading (source : Source) (args : Table String Value) (setting : Setting) (otherwise : α)
    (read : Value → Except Refusal α) : Except (List Issue) α :=
  (source.supplied? args setting).elim (pure otherwise) fun (name, v) => Field.named [name] (read v)

theorem load_eq (source : Source) (args : Table String Value) : load source args =
    (Field.both (reading source args .interval standard.interval readInterval) <|
      Field.both (reading source args .stem standard.stem readStem) <|
      Field.both (reading source args .separator standard.separator readSeparator)
        (reading source args .level standard.level readLevel)).map
      fun (interval, stem, separator, level) => ⟨interval, stem, separator, level⟩ :=
  rfl

theorem load_eq_ok : load source args = .ok s ↔
    reading source args .interval standard.interval readInterval = .ok s.interval ∧
      reading source args .stem standard.stem readStem = .ok s.stem ∧
      reading source args .separator standard.separator readSeparator = .ok s.separator ∧
      reading source args .level standard.level readLevel = .ok s.level := by
  rw [load_eq, Field.map_eq_ok]
  simp only [Field.both_eq_ok]
  constructor
  · rintro ⟨⟨interval, stem, separator, level⟩, ⟨first, second, third, fourth⟩, rfl⟩
    exact ⟨first, second, third, fourth⟩
  · intro read
    exact ⟨⟨s.interval, s.stem, s.separator, s.level⟩, read, rfl⟩

theorem mem_issuesOf_reading : issue ∈ Field.issuesOf (reading source args setting otherwise read) ↔
    ∃ name v refusal, source.supplied? args setting = some (name, v) ∧ read v = .error refusal ∧
      issue = ⟨[name], refusal⟩ := by
  unfold reading
  cases source.supplied? args setting with
  | none => simp [Field.issuesOf, pure, Except.pure]
  | some given =>
    obtain ⟨name, v⟩ := given
    cases taken : read v <;> simp [Field.issuesOf, Field.named, Except.mapError, taken]

theorem reading_eq_ok : reading source args setting otherwise read = .ok a ↔
    match source.supplied? args setting with
    | some (_, v) => read v = .ok a
    | none => a = otherwise := by
  unfold reading
  cases source.supplied? args setting with
  | none => simp [pure, Except.pure, eq_comm]
  | some given =>
    obtain ⟨name, v⟩ := given
    cases taken : read v <;> simp [Field.named, Except.mapError, taken]

theorem reading_isOk_iff : (∃ a, reading source args setting otherwise read = .ok a) ↔
    ¬∃ name v refusal, source.supplied? args setting = some (name, v) ∧ read v = .error refusal := by
  simp only [reading_eq_ok]
  cases source.supplied? args setting with
  | none => simp
  | some given =>
    obtain ⟨name, v⟩ := given
    cases taken : read v <;> simp [taken]

/-- What is read is what a setting is otherwise, or comes of a value. -/
theorem of_reading {P : α → Prop} (taken : reading source args setting otherwise read = .ok a) (usual : P otherwise)
    (given : ∀ v, read v = .ok a → P a) : P a := by
  rw [reading_eq_ok] at taken
  split at taken
  · next v _ => exact given v taken
  · exact taken ▸ usual

theorem mem_issuesOf_load : issue ∈ Field.issuesOf (load source args) ↔ ∃ setting name v refusal,
    source.supplied? args setting = some (name, v) ∧ setting.Rejects v refusal ∧ issue = ⟨[name], refusal⟩ := by
  simp only [load_eq, Field.issuesOf_map, Field.issuesOf_both, List.mem_append, mem_issuesOf_reading]
  constructor
  · rintro (told | told | told | told)
    exacts [⟨.interval, told⟩, ⟨.stem, told⟩, ⟨.separator, told⟩, ⟨.level, told⟩]
  · rintro ⟨setting, told⟩
    cases setting with
    | interval => exact .inl told
    | stem => exact .inr (.inl told)
    | separator => exact .inr (.inr (.inl told))
    | level => exact .inr (.inr (.inr told))

/-- When settings are loaded from a source and arguments, an issue is told of this one, under any of its names. -/
def Refuses (source : Source) (args : Table String Value) (setting : Setting) : Prop :=
  ∃ issue ∈ Field.issuesOf (load source args), ∃ name, issue.path = [name] ∧ Source.isFor setting name = true

theorem refuses_iff : Refuses source args setting ↔
    ∃ name v refusal, source.supplied? args setting = some (name, v) ∧ setting.Rejects v refusal := by
  simp only [Refuses, mem_issuesOf_load]
  constructor
  · rintro ⟨_, ⟨other, name, v, refusal, supplied, rejected, rfl⟩, _, ⟨⟩, named⟩
    -- The names of two settings are never the same, whatever their case.
    have same : other = setting := by
      have named' := Source.isFor_of_supplied supplied
      rw [Source.isFor, beq_iff_eq] at named named'
      exact Setting.fieldName_injective (named'.symm.trans named)
    subst same
    exact ⟨name, v, refusal, supplied, rejected⟩
  · rintro ⟨name, v, refusal, supplied, rejected⟩
    exact ⟨_, ⟨setting, name, v, refusal, supplied, rejected, rfl⟩, name, rfl, Source.isFor_of_supplied supplied⟩

/-- Settings load just if none of them is refused. -/
theorem load_isOk_iff : (∃ s, load source args = .ok s) ↔ ∀ setting, ¬Refuses source args setting := by
  simp only [refuses_iff]
  constructor
  · rintro ⟨s, loaded⟩ setting
    obtain ⟨interval, stem, separator, level⟩ := load_eq_ok.mp loaded
    cases setting with
    | interval => exact reading_isOk_iff.mp ⟨_, interval⟩
    | stem => exact reading_isOk_iff.mp ⟨_, stem⟩
    | separator => exact reading_isOk_iff.mp ⟨_, separator⟩
    | level => exact reading_isOk_iff.mp ⟨_, level⟩
  · intro fit
    obtain ⟨interval, first⟩ := reading_isOk_iff.mpr (fit .interval)
    obtain ⟨stem, second⟩ := reading_isOk_iff.mpr (fit .stem)
    obtain ⟨separator, third⟩ := reading_isOk_iff.mpr (fit .separator)
    obtain ⟨level, fourth⟩ := reading_isOk_iff.mpr (fit .level)
    exact ⟨⟨interval, stem, separator, level⟩, load_eq_ok.mpr ⟨first, second, third, fourth⟩⟩

theorem readInterval_eq_ok {v : Value} {x : Binary64} :
    readInterval v = .ok x ↔ Field.number v = .ok x ∧ Binary64.zero.atMost x = true := by
  rw [readInterval, bind_eq_ok]
  constructor
  · rintro ⟨y, taken, accepted⟩
    split at accepted
    · next fit =>
      cases accepted
      exact ⟨taken, fit⟩
    · cases accepted
  · rintro ⟨taken, fit⟩
    exact ⟨x, taken, if_pos fit⟩

theorem readStem_eq_ok {v : Value} {stem : Text} : readStem v = .ok stem ↔ Field.text v = .ok stem ∧ Plain stem := by
  simp only [readStem, bind_eq_ok, Field.mapError_eq_ok, checkName_eq_ok]
  constructor
  · rintro ⟨_, taken, ⟨⟩, plain, _⟩
    exact ⟨taken, plain⟩
  · rintro ⟨taken, plain⟩
    exact ⟨stem, taken, rfl, plain, fun _ => trivial⟩

theorem readSeparator_eq_ok {v : Value} {separator : Text} :
    readSeparator v = .ok separator ↔ Field.text v = .ok separator ∧ Plain separator := by
  rw [readSeparator, bind_eq_ok]
  constructor
  · rintro ⟨text, taken, accepted⟩
    split at accepted
    · cases accepted
    · next unreserved =>
      cases accepted
      exact ⟨taken, plain_iff.mpr unreserved⟩
  · rintro ⟨taken, plain⟩
    exact ⟨separator, taken, if_neg (plain_iff.mp plain)⟩

/-- Settings with an interval that is not below zero, and with texts that can be embedded in identities. -/
structure Usable (s : Settings) : Prop where
  interval : Binary64.zero.atMost s.interval = true
  stem : Plain s.stem
  separator : Plain s.separator

/-- The standard settings are as usable as those that were read. -/
theorem usable_of_load (loaded : load source args = .ok s) : s.Usable := by
  obtain ⟨interval, stem, separator, _⟩ := load_eq_ok.mp loaded
  exact {
    interval := of_reading (P := fun x => Binary64.zero.atMost x = true) interval (by decide +kernel)
      fun _ taken => (readInterval_eq_ok.mp taken).2
    stem := of_reading stem (by decide) fun _ taken => (readStem_eq_ok.mp taken).2
    separator := of_reading separator (by decide) fun _ taken => (readSeparator_eq_ok.mp taken).2 }

variable {name : String} {p q : Text} {v : Value}

theorem refuses_iff_of_supplied (supplied : source.supplied? args setting = some (name, v)) :
    Refuses source args setting ↔ ∃ refusal, setting.Rejects v refusal := by
  simp [refuses_iff, supplied]

/-- Where plain texts are read, a text is refused just if it holds a reserved character. -/
theorem exists_refusal_of_text {read : Value → Except Refusal Text}
    (reads : ∀ {v s}, read v = .ok s ↔ Field.text v = .ok s ∧ Plain s) :
    (∃ refusal, read (.text p) = .error refusal) ↔ ¬Plain p := by
  have taken : Field.text (.text p) = .ok p := rfl
  simp [Field.exists_error_iff, reads, taken]

theorem refuses_stem_iff (supplied : source.supplied? args .stem = some (name, .text p)) :
    Refuses source args .stem ↔ ¬Plain p :=
  (refuses_iff_of_supplied supplied).trans (exists_refusal_of_text readStem_eq_ok)

theorem refuses_separator_iff (supplied : source.supplied? args .separator = some (name, .text q)) :
    Refuses source args .separator ↔ ¬Plain q :=
  (refuses_iff_of_supplied supplied).trans (exists_refusal_of_text readSeparator_eq_ok)

end Settings

end MetricTree
