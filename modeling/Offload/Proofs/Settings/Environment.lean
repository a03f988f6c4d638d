import Offload.Cli.Run
import Offload.Proofs.Settings.Document
import Offload.Proofs.Text

/-!
# What the environment overrides

A variable overrides its setting if its text is a numeral of a positive number of 64 bits with
blanks around it (`IsMillis`). There is no other way to change a setting, and no variable changes
the setting of another (`Overrides`). So two environments one after the other are as good as one
that has the variables of the second where they are valid and those of the first elsewhere
(`Environment.above`).

The settings of a command come in three layers: what the environment gives, below it what the file
states, and below that the defaults (`Layered`).

A variable that is not valid is passed over without a report, and so is one that is set to nothing.
The difference between a variable that is not set, one that is empty and one that holds a word or a
zero is therefore of no consequence: none of them overrides (`read_eq_none`). That is also why
overriding is idempotent and why environments compose.
-/

namespace Offload.Settings

open Toml (Entries Node)

/-- A text that gives a number of milliseconds. -/
structure IsMillis (text : String) (m : Nat) : Prop where
  numeral : ∃ numeral, Text.IsNumeral m numeral ∧ Text.Padded numeral text.toList
  pos : 1 ≤ m
  le : m ≤ 2 ^ 64 - 1

/-- The text of a variable is valid just if an unsigned number of 64 bits that is not zero is read
off it when its blanks are gone. -/
theorem isMillis_iff {text : String} {m : Nat} : IsMillis text m ↔
    Text.unsigned (2 ^ 64 - 1) (Text.trimBlanks text.toList) = .ok m ∧ 1 ≤ m := by
  rw [Text.unsigned_eq_ok_iff, Text.isNumeral_trimBlanks_iff]
  exact ⟨fun h ↦ ⟨⟨h.numeral, h.le⟩, h.pos⟩, fun h ↦ ⟨h.1.1, h.2, h.1.2⟩⟩

/-- A valid text gives as many milliseconds as its numeral says. -/
theorem millis?_of_isMillis {text : String} {m : Nat} (h : IsMillis text m) :
    ∃ d, millis? text = some d ∧ d.nanos = m * 1000000 := by
  obtain ⟨hread, hpos⟩ := isMillis_iff.1 h
  refine ⟨.ofMillis (UInt64.ofNat m), ?_, ?_⟩
  · unfold millis?
    split
    · next hzero =>
      cases hread.symm.trans hzero
      exact absurd hpos (by decide)
    · next hms =>
      cases hread.symm.trans hms
      rfl
    · next herror => cases hread.symm.trans herror
  · have hlt : m < 2 ^ 64 := by
      have hle := h.le
      omega
    simp [Nat.mod_eq_of_lt hlt]

/-- Any other text gives nothing. -/
theorem millis?_eq_none {text : String} (h : ∀ m, ¬ IsMillis text m) : millis? text = none := by
  unfold millis?
  split
  · rfl
  · next ms hne hms =>
    exact absurd (isMillis_iff.2 ⟨hms, Nat.one_le_iff_ne_zero.2 hne⟩) (h ms)
  · rfl

namespace Variable

variable {v : Variable} {env : Environment} {m : Nat}

/-- The field that a variable overrides. -/
def field : Variable → Field
  | pollInterval => .pollInterval
  | gracePeriod => .gracePeriod
  | killWait => .killWait

/-- The environment gives a number of milliseconds for the variable. -/
def Given (v : Variable) (env : Environment) (m : Nat) : Prop :=
  ∃ text, env v.name = some text ∧ IsMillis text m

/-- A variable that is given is read, as many milliseconds long as it is given. -/
theorem read_of_given (h : v.Given env m) :
    ∃ d, v.read env = some d ∧ d.nanos = m * 1000000 := by
  obtain ⟨text, htext, hmillis⟩ := h
  rw [read, htext, Option.bind_some]
  exact millis?_of_isMillis hmillis

/-- A variable that is not set, or not to a valid text, is not read. -/
theorem read_eq_none (h : ∀ m, ¬ v.Given env m) : v.read env = none := by
  rw [read, Option.bind_eq_none_iff]
  exact fun text htext ↦ millis?_eq_none fun m hm ↦ h m ⟨text, htext, hm⟩

/-- A variable is read from its own text only. -/
theorem read_congr {env' : Environment} (h : env v.name = env' v.name) :
    v.read env = v.read env' := by
  rw [read, read, h]

end Variable

/-! ### One environment

A variable is looked up by its name, and what is not a number of 64 bits that is positive is as good
as nothing. That is one condition on its text, and the fields have no part in it.
-/

/-- The second settings are the first ones with what the environment gives in place of the fields
that it gives something for. -/
structure Overrides (env : Environment) (s t : Settings) : Prop where
  given : ∀ (v : Variable) (m : Nat), v.Given env m → v.field.Holds t (.integer m)
  kept : ∀ f : Field, (∀ (v : Variable) (m : Nat), v.field = f → ¬ v.Given env m) → f.Same t s

/-- The time that a variable overrides. -/
def time (s : Settings) : Variable → Duration
  | .pollInterval => s.pollInterval
  | .gracePeriod => s.termination.gracePeriod
  | .killWait => s.termination.killWait

section Override

variable {s t : Settings} {v : Variable} {env env' : Environment} {m : Nat}

/-- The time that a variable overrides is the one that is read of it, and the old one where none is.
-/
theorem time_override (s : Settings) (env : Environment) (v : Variable) :
    (s.override env).time v = (v.read env).getD (s.time v) := by
  cases v <;> rfl

/-- The field of a variable holds a number if its time is as many milliseconds. -/
theorem holds_field_iff : v.field.Holds s (.integer m) ↔ (s.time v).nanos = m * 1000000 := by
  cases v <;> exact Field.lasts_integer_iff

/-- Settings agree on the field of a variable if its times are equal. -/
theorem same_field_iff : v.field.Same s t ↔ s.time v = t.time v := by
  cases v <;> rfl

/-- The fields that no variable overrides, and those of the variables, are all. -/
theorem field_cases (f : Field) :
    (∃ v : Variable, v.field = f) ∨ ∀ s env, f.Same (override s env) s := by
  cases f with
  | maxConcurrent => exact .inr fun _ _ ↦ rfl
  | terminateOnReturn => exact .inr fun _ _ ↦ rfl
  | pollInterval => exact .inl ⟨.pollInterval, rfl⟩
  | gracePeriod => exact .inl ⟨.gracePeriod, rfl⟩
  | killWait => exact .inl ⟨.killWait, rfl⟩

/-- The three times, the limit and whether a worker is terminated are all that settings are. -/
theorem eq_of_time (hlimit : s.limit = t.limit) (hterminate : s.terminateOnReturn =
    t.terminateOnReturn) (htime : ∀ v, s.time v = t.time v) : s = t := by
  refine Field.eq_of_same fun f ↦ ?_
  cases f with
  | maxConcurrent => exact hlimit
  | terminateOnReturn => exact hterminate
  | pollInterval => exact htime .pollInterval
  | gracePeriod => exact htime .gracePeriod
  | killWait => exact htime .killWait

/-- Overriding settings does to each field what its variable says, and nothing to those without one.
-/
theorem overrides_override (s : Settings) (env : Environment) :
    Overrides env s (s.override env) where
  given v m h := by
    obtain ⟨d, hread, hd⟩ := Variable.read_of_given h
    rw [holds_field_iff, time_override, hread]
    exact hd
  kept f h := by
    rcases field_cases f with ⟨v, rfl⟩ | hsame
    · rw [same_field_iff, time_override, Variable.read_eq_none fun m ↦ h v m rfl]
      rfl
    · exact hsame s env

end Override

/-! ### Environments one after the other

Overriding twice is overriding once by the environments in layers, as a variable of the second is
taken if it is valid and else that of the first.
-/

open Classical in
/-- The variables of an environment where they are valid, and those of another one elsewhere. -/
noncomputable def Environment.above (upper lower : Environment) : Environment := fun name =>
  if ∃ text m, upper name = some text ∧ IsMillis text m then upper name else lower name

theorem Environment.above_self (env : Environment) : env.above env = env :=
  funext fun _ ↦ ite_self _

/-- Of two environments the upper one is read first, and the lower one where that gives nothing. -/
theorem Variable.read_above (v : Variable) (upper lower : Environment) :
    v.read (upper.above lower) = (v.read upper).or (v.read lower) := by
  by_cases h : ∃ text m, upper v.name = some text ∧ IsMillis text m
  · obtain ⟨text, m, hgiven⟩ := h
    obtain ⟨d, hread, -⟩ := Variable.read_of_given ⟨text, hgiven⟩
    rw [Variable.read_congr (if_pos ⟨text, m, hgiven⟩), hread, Option.some_or]
  · have hread : v.read upper = none :=
      Variable.read_eq_none fun m ⟨text, hgiven⟩ ↦ h ⟨text, m, hgiven⟩
    rw [Variable.read_congr (if_neg h), hread, Option.none_or]

/-- Two environments in turn override as one does that has the second above the first. -/
theorem override_override (s : Settings) (first second : Environment) :
    (s.override first).override second = s.override (second.above first) := by
  refine eq_of_time rfl rfl fun v ↦ ?_
  rw [time_override, time_override, time_override, Variable.read_above]
  cases v.read second <;> rfl

/-! ### The settings of a command

A command without a file has the environment above the defaults. A file that cannot be read, or is
no document of settings, is an error whatever the environment says.
-/

/-- The entries that a command finds in its file. Without a file it finds none. -/
inductive Finds : Option (String × Except (Option String) Wire.Bytes) → Entries → Prop
  | nothing : Finds none []
  | file {path text : String} {es : Entries} (h : Toml.document? text.toList = some es) :
    Finds (some (path, .ok (Wire.utf8 text))) es

/-- What the environment gives, over what the entries state, over the defaults. -/
structure Layered (env : Environment) (es : Entries) (t : Settings) : Prop where
  environment : ∀ (v : Variable) (m : Nat), v.Given env m → v.field.Holds t (.integer m)
  file : ∀ (f : Field) (value : Toml.Value),
    (∀ (v : Variable) (m : Nat), v.field = f → ¬ v.Given env m) →
    (f.key, .value value) ∈ es → f.Holds t value
  default : ∀ f : Field, (∀ (v : Variable) (m : Nat), v.field = f → ¬ v.Given env m) →
    f.key ∉ es.map Prod.fst → f.Same t default

/-- Settings that a document states, and that are overridden then, are layered. -/
theorem Overrides.layered {env : Environment} {es : Entries} {s t : Settings}
    (h : Overrides env s t) (hs : Reflects es s) : Layered env es t where
  environment := h.given
  file f value hkept hvalue := (hs.stated f value hvalue).congr (h.kept f hkept).symm
  default f hkept hkey := (h.kept f hkept).trans (hs.unstated f hkey)

/-- Settings are loaded from a file just if its bytes are a text and the text is a document of
settings. -/
theorem load_eq_ok_iff {path : String} {content : Except (Option String) Wire.Bytes}
    {s : Settings} : load path content = .ok s ↔
      ∃ es, Finds (some (path, content)) es ∧ ofEntries es = .ok s := by
  constructor
  · intro h
    unfold load at h
    split at h
    · cases h
    · split at h
      · cases h
      · next bytes _ text htext =>
        obtain ⟨es, hes, hs⟩ := ofText_eq_ok_iff.1 (mapError_eq_ok_iff.1 h)
        obtain rfl := Wire.utf8_of_ofUtf8? htext
        exact ⟨es, .file hes, hs⟩
  · rintro ⟨es, hfinds, hs⟩
    cases hfinds with
    | file hes =>
      simp only [load, Wire.ofUtf8?_utf8]
      exact mapError_eq_ok_iff.2 (ofText_eq_ok_iff.2 ⟨es, hes, hs⟩)

/-- What is found in a file has different keys and numbers in range. -/
theorem Finds.sound {file : Option (String × Except (Option String) Wire.Bytes)} {es : Entries}
    (h : Finds file es) : es.Sound := by
  cases h with
  | nothing => exact .nil
  | file h => exact Toml.sound_of_document? h

/-- The settings of a command are those of its file, with what the environment overrides. -/
theorem settingsOf_eq_ok_iff {file : Option (String × Except (Option String) Wire.Bytes)}
    {env : Environment} {t : Settings} : Cli.settingsOf file env = .ok t ↔
      ∃ es s, Finds file es ∧ ofEntries es = .ok s ∧ s.override env = t := by
  cases file with
  | none =>
    constructor
    · intro h
      exact ⟨[], default, .nothing, rfl, Except.ok.inj h⟩
    · rintro ⟨_, s, ⟨⟩, hs, rfl⟩
      cases hs
      rfl
  | some file =>
    obtain ⟨path, content⟩ := file
    rw [Cli.settingsOf]
    cases hload : load path content with
    | ok s =>
      obtain ⟨es, hes, hs⟩ := load_eq_ok_iff.1 hload
      constructor
      · exact fun h ↦ ⟨es, s, hes, hs, Except.ok.inj h⟩
      · rintro ⟨es', s', hes', hs', rfl⟩
        cases hload.symm.trans (load_eq_ok_iff.2 ⟨es', hes', hs'⟩)
        rfl
    | error e =>
      refine iff_of_false nofun ?_
      rintro ⟨es', s', hes', hs', rfl⟩
      cases hload.symm.trans (load_eq_ok_iff.2 ⟨es', hes', hs'⟩)

/-- What holds of settings that an environment overrides. -/
structure Overridable (s : Settings) : Prop where
  overrides : ∀ env, Overrides env s (s.override env)
  /-- The same environment changes nothing for a second time. -/
  twice : ∀ env, (s.override env).override env = s.override env
  /-- Two environments are as good as one. -/
  composed : ∀ first second,
    (s.override first).override second = s.override (second.above first)
  /-- A command has settings if its file states some, whatever the environment is. -/
  accepted : ∀ file env, (∃ t, Cli.settingsOf file env = .ok t) ↔
    ∃ es, Finds file es ∧ Clean es ∧ zeroPoll ∉ es
  layered : ∀ file env t, Cli.settingsOf file env = .ok t →
    ∃ es, Finds file es ∧ Layered env es t

/-- This is so for all settings, in every environment and over every file. -/
theorem overridable (s : Settings) : Overridable s := by
  constructor
  case overrides => exact overrides_override s
  case twice =>
    intro env
    rw [override_override, env.above_self]
  case composed => exact override_override s
  case accepted =>
    intro file env
    constructor
    · rintro ⟨t, ht⟩
      obtain ⟨es, s, hes, hs, -⟩ := settingsOf_eq_ok_iff.1 ht
      obtain ⟨hclean, hzero, -⟩ := (ofEntries_eq_ok_iff hes.sound).1 hs
      exact ⟨es, hes, hclean, hzero⟩
    · rintro ⟨es, hes, hclean, hzero⟩
      obtain ⟨hzero', -⟩ | ⟨-, s, hs, -⟩ := ofEntries_of_clean hclean hes.sound.nodup
      · exact absurd hzero' hzero
      · exact ⟨_, settingsOf_eq_ok_iff.2 ⟨es, s, hes, hs, rfl⟩⟩
  case layered =>
    intro file env t ht
    obtain ⟨es, s, hes, hs, rfl⟩ := settingsOf_eq_ok_iff.1 ht
    obtain ⟨-, -, hreflects⟩ := (ofEntries_eq_ok_iff hes.sound).1 hs
    exact ⟨es, hes, (overrides_override s env).layered hreflects⟩

end Offload.Settings
