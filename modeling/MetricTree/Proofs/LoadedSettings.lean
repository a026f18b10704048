import MetricTree.Proofs.ProperRuns
import MetricTree.Proofs.RefusedSettings
import MetricTree.Proofs.UsableIntervals
import MetricTree.Settings.Session

namespace MetricTree

open Identity

theorem Binary64.less_zero_of_atMost {x : Binary64} (above : zero.atMost x = true) : x.less zero = false := by
  cases placed : x.place? with
  | none => rw [less, placed]
  | some place =>
    rw [zero_atMost placed, decide_eq_true_iff] at above
    rw [less_zero placed, decide_eq_false_iff_not, Int.not_lt]
    exact above

namespace Options

/-- The options with these texts for the stem and the separator. -/
def withTexts (o : Options) (stem separator : Text) : Options :=
  { o with stem := .text stem, separator := .text separator }

theorem checkReporter_eq_ok {reporter : Option Reporter} :
    checkReporter reporter = .ok () ↔ ∀ r ∈ reporter, r.complete = true := by
  cases reporter with
  | none => exact ⟨fun _ => nofun, fun _ => rfl⟩
  | some r =>
    rw [checkReporter]
    split
    · next complete => exact ⟨fun _ _ same => Option.some.inj same ▸ complete, fun _ => rfl⟩
    · next incomplete => exact ⟨nofun, fun complete => absurd (complete r rfl) incomplete⟩

theorem checkSeparator_text {q separator : Text} :
    checkSeparator (.text q) = .ok separator ↔ Plain q ∧ separator = if q = "" then ↑"." else q := by
  by_cases empty : q = ""
  · subst empty
    have unset : checkSeparator (.text "") = .ok "." := rfl
    have plain : Plain "" := by decide
    rw [unset, Except.ok.injEq, if_pos rfl, and_iff_right plain, eq_comm]
  · have accepts : checkSeparator (.text q) =
        if q.toList.any isReserved then throw (.separatorUnusable (Text.quoted q)) else pure q := by
      have truthy : ¬(!(Value.text q).isTruthy) = true := by simp [Value.isTruthy, Text.isEmpty_iff, empty]
      rw [checkSeparator, if_neg truthy]
    rw [accepts, if_neg empty, plain_iff]
    split
    · next reserved => exact ⟨nofun, fun plain => absurd reserved plain.1⟩
    · next unreserved => exact ⟨fun same => ⟨unreserved, (Except.ok.inj same).symm⟩, fun plain => plain.2 ▸ rfl⟩

end Options

namespace Opening

variable {o : Options} {interval : Interval}

/-- Texts for the stem and the separator are accepted just if they are plain, whatever the other options are. -/
theorem ofOptions_withTexts_isOk {p q : Text} : (∃ opening, ofOptions (o.withTexts p q) interval = .ok opening) ↔
    (Plain p ∧ Plain q) ∧ Options.checkReporter o.reporter = .ok () ∧ (∃ tags, checkTags o.tags = .ok tags) ∧
      ∃ seconds, interval.seconds = .ok seconds := by
  simp only [ofOptions_eq_ok, Options.withTexts, Options.checkSeparator_text, checkName_eq_ok, Value.text.injEq]
  constructor
  · rintro ⟨_, complete, separator, stem, tags, seconds, ⟨plainSeparator, _⟩, ⟨rfl, plain, _⟩, given, taken, _⟩
    exact ⟨⟨plain, plainSeparator⟩, complete, ⟨tags, given⟩, seconds, taken⟩
  · rintro ⟨⟨plain, plainSeparator⟩, complete, ⟨tags, given⟩, seconds, taken⟩
    exact ⟨_, complete, _, p, tags, seconds, ⟨plainSeparator, rfl⟩, ⟨rfl, plain, fun _ => trivial⟩, given, taken, rfl⟩

end Opening

namespace Settings

/-- Settings that were loaded, from whatever source and arguments. -/
def Loaded (s : Settings) : Prop := ∃ source args, load source args = .ok s

/-- A tree that is opened as the settings say. -/
structure Opens (s : Settings) (reporter : Option Reporter) (opening : Opening) : Prop where
  root : opening.loop.tree.scope? opening.root = some (.fresh s.stem .empty)
  separator : opening.loop.tree.separator = if s.separator = "" then ↑"." else s.separator
  interval : opening.loop.interval = s.interval
  reporter : opening.loop.reporter = reporter

variable {s : Settings} {reporter : Option Reporter}

theorem Usable.opens (usable : s.Usable) (complete : ∀ r ∈ reporter, r.complete = true) :
    ∃ opening, s.openTree reporter = .ok opening ∧ s.Opens reporter opening := by
  let separator := if s.separator = "" then ↑"." else s.separator
  refine ⟨.made separator s.stem .empty s.interval reporter, ?_, ?_⟩
  · have seconds : Interval.seconds (.value (.float s.interval)) = .ok s.interval :=
      Interval.seconds_eq_ok.mpr ⟨rfl, Binary64.less_zero_of_atMost usable.interval⟩
    have stem : checkName "prefix" true (.text s.stem) = .ok s.stem :=
      checkName_eq_ok.mpr ⟨rfl, usable.stem, fun _ => rfl⟩
    exact Opening.ofOptions_eq_ok.mpr ⟨Options.checkReporter_eq_ok.mpr complete, separator, s.stem, .empty, s.interval,
      Options.checkSeparator_text.mpr ⟨usable.separator, rfl⟩, stem, rfl, seconds, rfl⟩
  · obtain ⟨tree, interval, attached⟩ := Opening.made_loop separator s.stem .empty s.interval reporter
    exact {
      root := by rw [tree]; exact Tree.scope?_ofRoot separator s.stem .empty
      separator := by rw [tree]; rfl
      interval := interval
      reporter := attached }

/-- Every level can be set in a log. -/
theorem configure_level (config : Log.Config) (level : Severity) :
    ∃ after, config.configure (.text level.name) = .ok after := by
  obtain ⟨n, _ | _⟩ := config <;> exact ⟨_, rfl⟩

end Settings

namespace SettingsSession

variable {s after : SettingsSession} {object : SettingsObject} {args : Option (Except Fault (Table String Value))}

/-- The session that several commands leave. -/
def afterAll (s : SettingsSession) (commands : List Command) : SettingsSession :=
  commands.foldl (fun s command => (s.step command).2) s

theorem run_append (s : SettingsSession) (before rest : List Command) :
    s.run (before ++ rest) = s.run before ++ (s.afterAll before).run rest := by
  induction before generalizing s with
  | nil => rfl
  | cons command before ih => exact congrArg _ (ih (s.step command).2)

/-- The object for these arguments, or the cached one without any. -/
def choose (s : SettingsSession) (args : Option (Except Fault (Table String Value))) :
    Except Fault (SettingsObject × SettingsSession) :=
  args.elim s.fetch fun args => do s.make (← args)

theorem step_openTree (s : SettingsSession) (args : Option (Except Fault (Table String Value)))
    (attached : Session.Attachment) (steps : List Session.Command) :
    s.step (.openTree args attached steps) = match s.choose args with
      | .ok (object, after) => after.openTree object attached steps
      | .error fault => (.refused fault, s) := rfl

/-- What is cached has been loaded. -/
def Sound (s : SettingsSession) : Prop := ∀ object, s.cached = some object → object.settings.Loaded

theorem sound_start (origin : Log.Origin) : (start origin).Sound := nofun

theorem make_eq_ok {args : Table String Value} (made : s.make args = .ok (object, after)) :
    object.settings.Loaded ∧ after = { s with made := s.made + 1 } := by
  obtain ⟨settings, loaded, same⟩ := bind_eq_ok.mp made
  cases same
  exact ⟨⟨s.source, args, Field.mapError_eq_ok.mp loaded⟩, rfl⟩

theorem Sound.fetch (sound : s.Sound) (fetched : s.fetch = .ok (object, after)) :
    object.settings.Loaded ∧ after.Sound ∧ after.config = s.config ∧ after.origin = s.origin := by
  unfold SettingsSession.fetch at fetched
  split at fetched
  · next found =>
    cases fetched
    exact ⟨sound object found, sound, rfl, rfl⟩
  · obtain ⟨⟨new, left⟩, made, same⟩ := bind_eq_ok.mp fetched
    cases same
    obtain ⟨loaded, rfl⟩ := make_eq_ok made
    exact ⟨loaded, fun _ found => Option.some.inj found ▸ loaded, rfl, rfl⟩

theorem Sound.choose (sound : s.Sound) (chosen : s.choose args = .ok (object, after)) :
    object.settings.Loaded ∧ after.Sound ∧ after.config = s.config ∧ after.origin = s.origin := by
  cases args with
  | none => exact sound.fetch chosen
  | some args =>
    obtain ⟨args, _, made⟩ := bind_eq_ok.mp chosen
    obtain ⟨loaded, rfl⟩ := make_eq_ok made
    exact ⟨loaded, sound, rfl, rfl⟩

theorem cached_present (s : SettingsSession) (object : SettingsObject) : (s.present object).2.cached = s.cached := by
  unfold present
  split <;> rfl

theorem cached_openTree (s : SettingsSession) (object : SettingsObject) (attached : Session.Attachment)
    (steps : List Session.Command) : (s.openTree object attached steps).2.cached = s.cached := by
  unfold openTree
  split
  · rfl
  · split <;> rfl

theorem Sound.step (sound : s.Sound) (command : Command) : (s.step command).2.Sound := by
  -- Whatever is made or fetched leaves the cache as it was, or caches what has just been loaded.
  have presents : ∀ args, (s.presentMade (s.choose args)).2.Sound := by
    intro args
    cases chosen : s.choose args with
    | error fault => exact sound
    | ok made =>
      intro object found
      rw [presentMade, cached_present] at found
      exact (sound.choose chosen).2.1 object found
  cases command with
  | setVariable name value =>
    rw [SettingsSession.step]
    cases s.source.setVariable name value with
    | ok source => exact sound
    | error fault => exact sound
  | unsetVariable name => exact sound
  | writeFile text => exact sound
  | clear => exact nofun
  | load args => exact presents (some args)
  | cached => exact presents none
  | openTree args attached steps =>
    rw [step_openTree]
    cases chosen : s.choose args with
    | error fault => exact sound
    | ok made =>
      intro object found
      rw [cached_openTree] at found
      exact (sound.choose chosen).2.1 object found

theorem Sound.afterAll (sound : s.Sound) (commands : List Command) : (s.afterAll commands).Sound := by
  induction commands generalizing s with
  | nil => exact sound
  | cons command rest ih => exact ih (sound.step command)

/-- A tree that is opened with settings that could be had is opened as they say, if the reporter is complete. -/
theorem Sound.opens {attached : Session.Attachment} (sound : s.Sound)
    (chosen : s.choose args = .ok (object, after)) (complete : ∀ r ∈ attached.reporter, r.complete = true)
    (steps : List Session.Command) : ∃ config opening,
      s.config.configure (.text object.settings.level.name) = .ok config ∧
      object.settings.openTree attached.reporter = .ok opening ∧ object.settings.Opens attached.reporter opening ∧
      (s.step (.openTree args attached steps)).1 =
        .tree (Session.run config s.origin attached (pure opening) steps) := by
  obtain ⟨⟨source, given, loaded⟩, _, sameConfig, sameOrigin⟩ := sound.choose chosen
  obtain ⟨config, configured⟩ := Settings.configure_level s.config object.settings.level
  obtain ⟨opening, opened, opens⟩ := (Settings.usable_of_load loaded).opens complete
  refine ⟨config, opening, configured, opened, opens, ?_⟩
  rw [step_openTree, chosen]
  simp only [openTree, sameConfig, configured, sameOrigin, opened]

end SettingsSession

namespace Settings

variable {source : Source} {args : Table String Value} {stemName separatorName : String} {p q : Text}

/-- The texts that settings and options accept are the same, and they are what is loaded. -/
theorem texts_agree (stem : source.supplied? args .stem = some (stemName, .text p))
    (separator : source.supplied? args .separator = some (separatorName, .text q)) :
    (∀ (o : Options) (interval : Interval), (∃ opening, Opening.ofOptions (o.withTexts p q) interval = .ok opening) ↔
      (¬Refuses source args .stem ∧ ¬Refuses source args .separator) ∧
        ∃ opening, Opening.ofOptions (o.withTexts "" ".") interval = .ok opening) ∧
    ∀ s, load source args = .ok s → s.stem = p ∧ s.separator = q := by
  constructor
  · intro o interval
    have usual : Plain "" ∧ Plain "." := by decide
    rw [Opening.ofOptions_withTexts_isOk, Opening.ofOptions_withTexts_isOk, refuses_stem_iff stem,
      refuses_separator_iff separator, not_not, not_not, and_iff_right usual]
  · intro s loaded
    obtain ⟨_, readStem, readSeparator, _⟩ := load_eq_ok.mp loaded
    rw [reading_eq_ok, stem] at readStem
    rw [reading_eq_ok, separator] at readSeparator
    exact ⟨(Except.ok.inj (readStem_eq_ok.mp readStem).1).symm,
      (Except.ok.inj (readSeparator_eq_ok.mp readSeparator).1).symm⟩

theorem load_textArguments (p q : Text) : (∃ s, load .empty (Source.textArguments p q) = .ok s) ↔
    ∃ opening, Opening.ofOptions (Options.standard.withTexts p q) (.value .null) = .ok opening := by
  have stem := Source.supplied_textArguments p q .stem
  have separator := Source.supplied_textArguments p q .separator
  have usual : ∃ opening, Opening.ofOptions (Options.standard.withTexts "" ".") (.value .null) = .ok opening := ⟨_, rfl⟩
  have unset {setting : Setting} (none : Source.empty.supplied? (Source.textArguments p q) setting = none) :
      ¬Refuses .empty (Source.textArguments p q) setting := by
    rw [refuses_iff, none]
    exact nofun
  rw [load_isOk_iff, (texts_agree stem separator).1, and_iff_left usual]
  constructor
  · intro fit
    exact ⟨fit .stem, fit .separator⟩
  · rintro ⟨first, second⟩ setting
    cases setting with
    | interval => exact unset (Source.supplied_textArguments p q .interval)
    | stem => exact first
    | separator => exact second
    | level => exact unset (Source.supplied_textArguments p q .level)

end Settings

/-- Settings load just if none of the four is refused. A text for the stem and one for the separator are refused just if
no tree can be opened with them, whatever else it is opened with; otherwise they are loaded as they are. With settings
that are loaded a tree is opened for any complete reporter, or for none, as they say; so it is in a session too, after
any commands, with settings of its own or with the cached ones. -/
theorem settings_and_trees_agree :
    (∀ source args, (∃ s, Settings.load source args = .ok s) ↔ ∀ setting, ¬Settings.Refuses source args setting) ∧
    (∀ source args stemName separatorName p q, source.supplied? args .stem = some (stemName, .text p) →
      source.supplied? args .separator = some (separatorName, .text q) →
      (∀ (o : Options) (interval : Interval), (∃ opening, Opening.ofOptions (o.withTexts p q) interval = .ok opening) ↔
        (¬Settings.Refuses source args .stem ∧ ¬Settings.Refuses source args .separator) ∧
          ∃ opening, Opening.ofOptions (o.withTexts "" ".") interval = .ok opening) ∧
      ∀ s, Settings.load source args = .ok s → s.stem = p ∧ s.separator = q) ∧
    (∀ p q, (∃ s, Settings.load .empty (Source.textArguments p q) = .ok s) ↔
      ∃ opening, Opening.ofOptions (Options.standard.withTexts p q) (.value .null) = .ok opening) ∧
    (∀ s : Settings, s.Loaded → ∀ reporter, (∀ r ∈ reporter, r.complete = true) →
      (∀ config : Log.Config, ∃ after, config.configure (.text s.level.name) = .ok after) ∧
        ∃ opening, s.openTree reporter = .ok opening ∧ s.Opens reporter opening) ∧
    ∀ origin before args (attached : Session.Attachment) steps object after,
      (∀ r ∈ attached.reporter, r.complete = true) →
      let s := (SettingsSession.start origin).afterAll before
      s.choose args = .ok (object, after) → object.settings.Loaded ∧ ∃ config opening,
        s.config.configure (.text object.settings.level.name) = .ok config ∧
        object.settings.openTree attached.reporter = .ok opening ∧ object.settings.Opens attached.reporter opening ∧
        (SettingsSession.start origin).run (before ++ [.openTree args attached steps]) =
          (SettingsSession.start origin).run before ++
            [.tree (Session.run config s.origin attached (pure opening) steps)] := by
  refine ⟨fun _ _ => Settings.load_isOk_iff, fun _ _ _ _ _ _ => Settings.texts_agree, Settings.load_textArguments,
    fun s loaded reporter complete => ?_, fun origin before args attached steps object after complete => ?_⟩
  · obtain ⟨source, args, loaded⟩ := loaded
    exact ⟨fun config => Settings.configure_level config s.level, (Settings.usable_of_load loaded).opens complete⟩
  · intro s chosen
    have sound : s.Sound := (SettingsSession.sound_start origin).afterAll before
    obtain ⟨config, opening, configured, opened, opens, answer⟩ := sound.opens chosen complete steps
    refine ⟨(sound.choose chosen).1, config, opening, configured, opened, opens, ?_⟩
    rw [SettingsSession.run_append]
    exact congrArg (fun result => (SettingsSession.start origin).run before ++ [result]) answer

/-- A stem with nothing for a separator, and a separator that holds a reserved character after a point. -/
theorem settings_and_trees_agree_given :
    (∃ s opening, Settings.load .empty (Source.textArguments "agent" "") = .ok s ∧ s.openTree none = .ok opening ∧
      s.Opens none opening ∧ s.stem = "agent" ∧ opening.loop.tree.separator = ".") ∧
    ¬∃ s, Settings.load .empty (Source.textArguments "agent" ".+") = .ok s := by
  obtain ⟨_, texts, direct, opens, _⟩ := settings_and_trees_agree
  constructor
  · obtain ⟨s, loaded⟩ := (direct "agent" "").mpr ⟨_, rfl⟩
    obtain ⟨stem, separator⟩ := (texts _ _ _ _ _ _ (Source.supplied_textArguments "agent" "" .stem)
      (Source.supplied_textArguments "agent" "" .separator)).2 s loaded
    obtain ⟨opening, opened, as⟩ := (opens s ⟨_, _, loaded⟩ none nofun).2
    refine ⟨s, opening, loaded, opened, as, stem, ?_⟩
    rw [as.separator, if_pos separator]
  · rw [direct]
    rintro ⟨opening, opened⟩
    cases opened

end MetricTree
