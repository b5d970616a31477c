import Brume.Installer.ConfigFile
import Brume.Lib.Loop
import Brume.Precedence

/-!
# The arguments of an old service (`install.sh`)

`get_current_config_auto` reads the command line of a service that was installed
before there was a configuration file. Its loop takes an option and its value
with one `shift 2`, which does nothing when only the option is left.
-/

namespace Brume
open Lib

namespace Installer

/-- The options of `case "$1"`. -/
def legacyOption (word : Text) : Option Setting :=
  if word = "-p".toList then some .port
  else if word = "-user".toList then some .user
  else if word = "-pwd".toList then some .pwd
  else if word = "--whitelist".toList then some .whitelist
  else if word = "--tcp-timeout".toList then some .tcpTimeout
  else if word = "--udp-timeout".toList then some .udpTimeout
  else none

def isLegacyOption (word : Text) : Bool := (legacyOption word).isSome

/-- `shift 2` of the positional parameters. -/
def shift2 (words : List Text) : List Text := if words.length < 2 then words else words.drop 2

/-- The positional parameters and the variables that the loop sets. -/
structure Legacy where
  words : List Text
  vars : Variables

/-- One round of `while [ $# -gt 0 ]`. A missing `$2` is empty. -/
def Legacy.round : Loop Legacy Variables := fun s =>
  match s.words with
  | [] => .inr s.vars
  | word :: rest =>
    match legacyOption word with
    | some setting => .inl ⟨shift2 (word :: rest), s.vars.set setting (rest.headD [])⟩
    | none => .inl ⟨rest, s.vars⟩

namespace Legacy

theorem round_value {word value : Text} {setting : Setting} (h : legacyOption word = some setting)
    (rest : List Text) (v : Variables) :
    round ⟨word :: value :: rest, v⟩ = .inl ⟨rest, v.set setting value⟩ := by
  simp [round, h, shift2]

theorem round_last {word : Text} {setting : Setting} (h : legacyOption word = some setting) (v : Variables) :
    round ⟨[word], v⟩ = .inl ⟨[word], v.set setting []⟩ := by
  simp [round, h, shift2]

theorem round_other {word : Text} (h : legacyOption word = none) (rest : List Text) (v : Variables) :
    round ⟨word :: rest, v⟩ = .inl ⟨rest, v⟩ := by
  simp [round, h]

end Legacy

/-! ### Termination -/

theorem rtakeWhile_cons {α : Type} (p : α → Bool) (a : α) (l : List α) :
    (a :: l).rtakeWhile p = if l.all p && p a then a :: l else l.rtakeWhile p := by
  induction l using List.reverseRecOn with
  | nil => cases ha : p a <;> simp [List.rtakeWhile, ha]
  | append_singleton l b ih =>
    rw [← List.cons_append]
    cases hb : p b with
    | false =>
      rw [List.rtakeWhile_concat_neg _ _ _ (by simp [hb]), List.rtakeWhile_concat_neg _ _ _ (by simp [hb])]
      simp [hb]
    | true =>
      rw [List.rtakeWhile_concat_pos _ _ _ hb, List.rtakeWhile_concat_pos _ _ _ hb, ih]
      cases hall : l.all p && p a with
      | false =>
        have hfalse : ((l ++ [b]).all p && p a) = false := by
          rw [List.all_append]
          simp only [List.all_cons, List.all_nil, hb]
          simpa using hall
        rw [hfalse]
        rfl
      | true =>
        have htrue : ((l ++ [b]).all p && p a) = true := by
          rw [List.all_append]
          simp only [List.all_cons, List.all_nil, hb]
          simpa using hall
        rw [htrue]
        rfl

/-- A value behind an option changes the options at the end by both of them or not at all. -/
theorem even_rtakeWhile_value {word value : Text} {rest : List Text} (h : isLegacyOption word = true) :
    Even ((word :: value :: rest).rtakeWhile isLegacyOption).length ↔
      Even (rest.rtakeWhile isLegacyOption).length := by
  rw [rtakeWhile_cons, rtakeWhile_cons]
  cases hall : rest.all isLegacyOption with
  | false => simp [hall]
  | true =>
    have hrest : rest.rtakeWhile isLegacyOption = rest :=
      List.rtakeWhile_eq_self_iff.mpr (List.all_eq_true.mp hall)
    cases hvalue : isLegacyOption value with
    | false => simp [hvalue]
    | true =>
      rw [hrest]
      simp only [List.all_cons, hvalue, hall, h, Bool.and_self, ↓reduceIte, List.length_cons]
      rw [Nat.even_add_one, Nat.even_add_one, not_not]

theorem even_rtakeWhile_other {word : Text} {rest : List Text} (h : isLegacyOption word = false) :
    (word :: rest).rtakeWhile isLegacyOption = rest.rtakeWhile isLegacyOption := by
  rw [rtakeWhile_cons, h, Bool.and_false]
  rfl

/-- The loop over the arguments of an old service ends exactly when the options at the end of
the list are even in number, so that the last one has a value or is one. -/
theorem legacy_terminates_iff (words : List Text) (v : Variables) :
    Legacy.round.Terminates ⟨words, v⟩ ↔ Even (words.rtakeWhile isLegacyOption).length := by
  induction hn : words.length using Nat.strong_induction_on generalizing words v with
  | _ n ih =>
    match words with
    | [] =>
      have hleaves : Legacy.round.Terminates ⟨[], v⟩ := ⟨v, .leave rfl⟩
      simp [hleaves]
    | word :: rest =>
      rw [List.length_cons] at hn
      cases hoption : legacyOption word with
      | none =>
        have hother : isLegacyOption word = false := by simp [isLegacyOption, hoption]
        rw [Loop.terminates_inl (Legacy.round_other hoption rest v), even_rtakeWhile_other hother]
        exact ih rest.length (by omega) rest v rfl
      | some setting =>
        have hword : isLegacyOption word = true := by simp [isLegacyOption, hoption]
        match rest with
        | [] =>
          have hstuck : ¬Legacy.round.Terminates ⟨[word], v⟩ := by
            refine Loop.not_terminates (fun s => s.words = [word]) ?_ rfl
            rintro ⟨words, v⟩ rfl
            exact ⟨_, Legacy.round_last hoption v, rfl⟩
          have hodd : ([word].rtakeWhile isLegacyOption).length = 1 := by
            rw [rtakeWhile_cons]
            simp [hword]
          rw [hodd]
          simp [hstuck]
        | value :: rest =>
          rw [List.length_cons] at hn
          rw [Loop.terminates_inl (Legacy.round_value hoption rest v), even_rtakeWhile_value hword]
          exact ih rest.length (by omega) rest _ rfl

/-- An old service with nothing but `-p`. -/
theorem legacy_port_without_value :
    ¬∀ words : List Text, (∀ word ∈ words, word ≠ "--config".toList) →
      Legacy.round.Terminates ⟨words, .initial⟩ := by
  intro h
  have hterminates := h ["-p".toList] (by decide)
  obtain ⟨r, hr⟩ := hterminates
  refine Loop.not_terminates (fun s : Legacy => s.words = ["-p".toList]) ?_ rfl ⟨r, hr⟩
  rintro ⟨words, v⟩ rfl
  exact ⟨_, rfl, rfl⟩

/-! ### Migration -/

/-- `CONFIG_FILE`. -/
def configFile : Text := "/etc/brume/brume.conf".toList

theorem legacyOption_ofOption {word : Text} {s : Setting} (h : legacyOption word = some s) :
    Setting.ofOption word = some s := by
  unfold legacyOption at h
  split_ifs at h with hport huser hpwd hwhitelist htcp hudp <;> cases h
  · rw [hport]
    rfl
  · rw [huser]
    rfl
  · rw [hpwd]
    rfl
  · rw [hwhitelist]
    rfl
  · rw [htcp]
    rfl
  · rw [hudp]
    rfl

/-- An option with its value, as both readers of a command line take it. -/
structure Pair where
  option : Text
  setting : Setting
  value : Text
  legacy : legacyOption option = some setting

namespace Pair

def words (p : Pair) : List Text := [p.option, p.value]

def occurrence (p : Pair) : Occurrence := ⟨p.option, p.value, false⟩

theorem known (p : Pair) : p.occurrence.Known :=
  .inr (by rw [Occurrence.setting?, occurrence, legacyOption_ofOption p.legacy]; rfl)

theorem assignment (p : Pair) : p.occurrence.assignment? = some (p.setting, p.value) := by
  rw [Occurrence.assignment?, Occurrence.setting?, occurrence, legacyOption_ofOption p.legacy]
  rfl

end Pair

/-- The variables behind the loop. -/
def Variables.setAll (v : Variables) (pairs : List Pair) : Variables :=
  pairs.foldl (fun v p => v.set p.setting p.value) v

theorem legacy_returns (pairs : List Pair) (v : Variables) :
    Legacy.round.Returns ⟨pairs.flatMap Pair.words, v⟩ (v.setAll pairs) := by
  induction pairs generalizing v with
  | nil => exact .leave rfl
  | cons p pairs ih => exact .again (Legacy.round_value p.legacy _ v) (ih _)

def assignments (pairs : List Pair) : List (Setting × Text) := pairs.map fun p => (p.setting, p.value)

theorem get_setAll (v : Variables) (pairs : List Pair) (s : Setting) :
    (v.setAll pairs).get s = (lastWrite s (assignments pairs)).getD (v.get s) := by
  induction pairs generalizing v with
  | nil => rfl
  | cons p pairs ih =>
    rw [Variables.setAll, List.foldl_cons, assignments, List.map_cons, lastWrite_cons]
    refine (ih _).trans ?_
    rw [assignments]
    cases lastWrite s (pairs.map fun p => (p.setting, p.value)) with
    | some value => rfl
    | none =>
      by_cases hs : p.setting = s
      · subst hs
        simp
      · rw [Variables.get_set_of_ne v (Ne.symm hs)]
        simp [hs]

theorem writeConfigFile_isOk {v : Variables} (h : ∀ s, '\n' ∉ v.get s ∧ '\r' ∉ v.get s) :
    ∃ text, writeConfigFile v = .ok text := by
  have hclean : ([v.port, v.user, v.password, v.whitelist, v.tcpTimeout, v.udpTimeout, v.dnsServers].any
      fun value => '\n' ∈ value ∨ '\r' ∈ value) = false := by
    simp only [List.any_cons, List.any_nil, Bool.or_false, Bool.or_eq_false_iff, decide_eq_false_iff_not,
      not_or]
    exact ⟨h .port, h .user, h .pwd, h .whitelist, h .tcpTimeout, h .udpTimeout, h .dnsServers⟩
  exact ⟨_, if_neg (by rw [hclean]; exact Bool.false_ne_true)⟩

/-- The variables stand for the configuration that the server makes of the same options. -/
theorem agree_setAll {pairs : List Pair} {config : Config}
    (h : Config.initial.assign (assignments pairs) = .ok config) :
    Agree (Variables.initial.setAll pairs) config := by
  intro s
  have hget := Config.assign_get h s
  rw [get_setAll]
  cases hwrite : lastWrite s (assignments pairs) with
  | some value =>
    rw [hwrite] at hget
    exact .inr hget
  | none =>
    rw [hwrite] at hget
    rw [hget]
    exact agree_initial s

theorem notMem_setAll {c : Char} {pairs : List Pair} (h : ∀ p ∈ pairs, c ∉ p.value) {v : Variables}
    (hv : ∀ s, c ∉ v.get s) (s : Setting) : c ∉ (v.setAll pairs).get s := by
  induction pairs generalizing v with
  | nil => exact hv s
  | cons p pairs ih =>
    refine ih (fun q hq => h q (.tail _ hq)) ?_
    intro s'
    by_cases hs : s' = p.setting
    · subst hs
      rw [Variables.get_set]
      exact h p (.head _)
    · rw [Variables.get_set_of_ne v hs]
      exact hv s'

theorem initial_notMem (s : Setting) :
    '\n' ∉ Variables.initial.get s ∧ '\r' ∉ Variables.initial.get s := by
  cases s <;> decide

/-- What the installer makes of the command line of an old service, the server reads as the
configuration that it had from the command line. -/
theorem migration_faithful {files : Text → Except String Text} (pairs : List Pair) {config : Config}
    (hclean : ∀ p ∈ pairs, '\n' ∉ p.value ∧ '\r' ∉ p.value)
    (hparse : Config.parse files (pairs.flatMap Pair.words) = .ok (some config)) :
    ∃ v text, Legacy.round.Returns ⟨pairs.flatMap Pair.words, .initial⟩ v ∧
      writeConfigFile v = .ok text ∧
      Config.parse (Function.update files configFile (.ok text)) ["--config".toList, configFile] =
        .ok (some config) := by
  have hknown : ∀ o ∈ pairs.map Pair.occurrence, o.Known := by
    intro o ho
    obtain ⟨p, -, rfl⟩ := List.mem_map.mp ho
    exact p.known
  have htokens : pairs.flatMap Pair.words = (pairs.map Pair.occurrence).flatMap Occurrence.tokens := by
    rw [List.flatMap_map]
    rfl
  have hnoConfig : Config.configs (pairs.map Pair.occurrence) = [] := by
    have hnot : ∀ p : Pair, ¬p.occurrence.IsConfig := by
      rintro ⟨option, setting, value, hlegacy⟩ rfl
      cases hlegacy
    simp [Config.configs, hnot]
  have hassign : (pairs.map Pair.occurrence).filterMap Occurrence.assignment? = assignments pairs := by
    rw [List.filterMap_map, assignments, ← List.filterMap_eq_map]
    exact List.filterMap_congr fun p _ => p.assignment
  rw [htokens] at hparse
  obtain ⟨file, hfile, hconfig, hvalid⟩ := Config.parse_assign hknown hparse
  have hempty : file = [] := by
    obtain ⟨-, hfile⟩ | ⟨path, contents, hone, -⟩ := hfile
    · exact hfile
    · rw [hnoConfig] at hone
      cases hone
  rw [hempty, List.nil_append, hassign] at hconfig
  obtain ⟨text, hwrite⟩ := writeConfigFile_isOk fun s =>
    ⟨notMem_setAll (fun p hp => (hclean p hp).1) (fun s => (initial_notMem s).1) s,
      notMem_setAll (fun p hp => (hclean p hp).2) (fun s => (initial_notMem s).2) s⟩
  refine ⟨_, text, legacy_returns pairs .initial, hwrite, ?_⟩
  exact (parse_configPath rfl (Function.update_self configFile _ files) config).mpr
    ⟨readLinesFrom_writeConfigFile (agree_setAll hconfig) hwrite, hvalid⟩

/-- A repeated port, a value that looks like an option, and a password with `=` and `#`. -/
def repeatedPort : List Pair :=
  [⟨"-p".toList, .port, "1".toList, rfl⟩, ⟨"-user".toList, .user, "-pwd".toList, rfl⟩,
    ⟨"-pwd".toList, .pwd, "#a=b".toList, rfl⟩, ⟨"-p".toList, .port, "8080".toList, rfl⟩]

theorem migration_faithful_repeated :
    ∃ v text, Legacy.round.Returns ⟨repeatedPort.flatMap Pair.words, .initial⟩ v ∧
      writeConfigFile v = .ok text ∧
      Config.parse (Function.update (fun _ => .error "") configFile (.ok text))
        ["--config".toList, configFile] =
        .ok (some { Config.initial with port := 8080, username := "-pwd", password := "#a=b" }) :=
  migration_faithful repeatedPort (by decide) (by decide)

end Installer

end Brume
