import WordLang.CommandLine.Arguments
import WordLang.Proofs.Text

/-! A source that starts with a dash. Among groups of arguments that belong to options it is found
and goes behind two dashes, unless it looks like an option with a value. -/
namespace WordLang

/-! ### Groups of arguments -/

/-- Flags that may stand beside a source. -/
def flagNames : List String :=
  ["--tokens", "--ast", "--run", "-c", "--comments", "-v", "--verbose"]

/-- Names of the output option. -/
def outputNames : List String := ["-o", "--output"]

/-- Arguments that belong together: a flag, or the output option with its value. -/
inductive OptionGroup where
  | flag (name : String) (hn : name ∈ flagNames)
  | output (name value : String) (hn : name ∈ outputNames) (hv : value ≠ endOfOptions)
  | joined (value : String)

namespace OptionGroup

/-- The arguments of a group. -/
def words : OptionGroup → List String
  | .flag name _ => [name]
  | .output name value _ _ => [name, value]
  | .joined value => ["--output=" ++ value]

/-- The arguments of groups, one behind the other. -/
def written (groups : List OptionGroup) : List String := groups.flatMap words

/-- The parts that the arguments of a group play. -/
def roles : OptionGroup → List Role
  | .flag _ _ | .joined _ => [.option]
  | .output _ _ _ _ => [.option, .value]

end OptionGroup

/-- No option has a name with an equals sign. -/
theorem ofName?_of_mem {s : String} (h : '=' ∈ s.toList) : Switch.ofName? s = none := by
  have hnames : ∀ entry ∈ Switch.longNames ++ Switch.shortNames, '=' ∉ entry.1.toList := by decide
  rw [Switch.ofName?, List.lookup_eq_none_iff]
  intro entry hentry
  rw [bne_iff_ne]
  rintro rfl
  exact hnames entry hentry h

theorem takesNext_of_none {s : String} (h : Switch.ofName? s = none) : takesNext s = false := by
  rw [takesNext, h]
  rfl

theorem nameOf_joined (value : String) : nameOf ("--output=" ++ value) = "--output" := by
  rw [nameOf, String.toList_append]
  rfl

theorem joined_ne_endOfOptions (value : String) : "--output=" ++ value ≠ endOfOptions := by
  intro h
  have hlen := congrArg String.length h
  rw [String.length_append, show endOfOptions.length = 2 from rfl,
    show "--output=".length = 9 from rfl] at hlen
  omega

theorem isOption_of_mem_names : ∀ name ∈ flagNames ++ outputNames,
    name ≠ endOfOptions ∧ (Switch.ofName? (nameOf name)).isSome = true := by
  decide

theorem takesNext_of_mem_names :
    (∀ name ∈ flagNames, takesNext name = false) ∧ ∀ name ∈ outputNames, takesNext name = true := by
  decide

/-! ### Parts -/

theorem roles_of_option {arg : String} (h : (Switch.ofName? (nameOf arg)).isSome = true)
    (args : List String) :
    roles false (arg :: args) = .option :: roles (takesNext arg) args := by
  rw [roles, if_pos h]

theorem roles_of_dashed {arg : String} (h : Switch.ofName? (nameOf arg) = none)
    (hd : startsWithDash arg = true) (args : List String) :
    roles false (arg :: args) = .dashed :: roles false args := by
  rw [roles, if_neg (by simp [h]), if_pos hd]

namespace OptionGroup

/-- A group is passed as a whole. -/
theorem roles_words_append (g : OptionGroup) (args : List String) :
    WordLang.roles false (g.words ++ args) = g.roles ++ WordLang.roles false args := by
  cases g with
  | flag name hn =>
    obtain ⟨-, hname⟩ := isOption_of_mem_names name (List.mem_append_left _ hn)
    rw [words, List.singleton_append, roles_of_option hname, takesNext_of_mem_names.1 name hn]
    rfl
  | output name value hn hv =>
    obtain ⟨-, hname⟩ := isOption_of_mem_names name (List.mem_append_right _ hn)
    rw [words, List.cons_append, roles_of_option hname, takesNext_of_mem_names.2 name hn]
    rfl
  | joined value =>
    have hname : (Switch.ofName? (nameOf ("--output=" ++ value))).isSome = true := by
      rw [nameOf_joined]
      rfl
    have hnext : takesNext ("--output=" ++ value) = false :=
      takesNext_of_none (ofName?_of_mem (by simp))
    rw [words, List.singleton_append, roles_of_option hname, hnext]
    rfl

theorem roles_written_append (groups : List OptionGroup) (args : List String) :
    WordLang.roles false (written groups ++ args) =
      groups.flatMap roles ++ WordLang.roles false args := by
  induction groups with
  | nil => rfl
  | cons g groups ih =>
    rw [written, List.flatMap_cons, List.append_assoc, roles_words_append, List.flatMap_cons,
      List.append_assoc]
    exact congrArg _ ih

theorem mem_roles {groups : List OptionGroup} {r : Role} (h : r ∈ groups.flatMap roles) :
    r = .option ∨ r = .value := by
  obtain ⟨g, -, hr⟩ := List.mem_flatMap.mp h
  cases g <;> simp_all [roles]

theorem length_roles (groups : List OptionGroup) :
    (groups.flatMap roles).length = (written groups).length := by
  induction groups with
  | nil => rfl
  | cons g groups ih =>
    have hg : g.roles.length = g.words.length := by cases g <;> rfl
    rw [written, List.flatMap_cons, List.flatMap_cons, List.length_append, List.length_append, hg]
    exact congrArg _ ih

theorem endOfOptions_not_mem (groups : List OptionGroup) : endOfOptions ∉ written groups := by
  intro h
  obtain ⟨g, -, hw⟩ := List.mem_flatMap.mp h
  cases g with
  | flag name hn =>
    exact (isOption_of_mem_names name (List.mem_append_left _ hn)).1 (List.mem_singleton.mp hw).symm
  | output name value hn hv =>
    rcases List.mem_cons.mp hw with hw | hw
    · exact (isOption_of_mem_names name (List.mem_append_right _ hn)).1 hw.symm
    · exact hv (List.mem_singleton.mp hw).symm
  | joined value => exact joined_ne_endOfOptions value (List.mem_singleton.mp hw).symm

end OptionGroup

/-! ### The way of the source -/

section Among

variable (before after : List OptionGroup) {s : String}

theorem endOfOptions_not_mem_among (hend : s ≠ endOfOptions) :
    endOfOptions ∉ OptionGroup.written before ++ s :: OptionGroup.written after := by
  rw [List.mem_append, List.mem_cons]
  rintro (h | h | h)
  · exact OptionGroup.endOfOptions_not_mem before h
  · exact hend h.symm
  · exact OptionGroup.endOfOptions_not_mem after h

theorem roles_written (groups : List OptionGroup) :
    roles false (OptionGroup.written groups) = groups.flatMap OptionGroup.roles := by
  simpa [roles] using OptionGroup.roles_written_append groups []

theorem findIdx?_dashed (groups : List OptionGroup) :
    (groups.flatMap OptionGroup.roles).findIdx? (· == .dashed) = none := by
  rw [List.findIdx?_eq_none_iff]
  intro r hr
  rcases OptionGroup.mem_roles hr with rfl | rfl <;> rfl

theorem plain_not_mem (groups : List OptionGroup) :
    Role.plain ∉ groups.flatMap OptionGroup.roles := by
  intro h
  rcases OptionGroup.mem_roles h with h | h <;> cases h

/-- A source that looks like no option goes behind two dashes. -/
theorem routeSource_of_none (hd : startsWithDash s = true) (hend : s ≠ endOfOptions)
    (h : Switch.ofName? (nameOf s) = none) :
    routeSource (OptionGroup.written before ++ s :: OptionGroup.written after) =
      OptionGroup.written before ++ OptionGroup.written after ++ [endOfOptions, s] := by
  have hroles : roles false (OptionGroup.written before ++ s :: OptionGroup.written after) =
      before.flatMap OptionGroup.roles ++ .dashed :: after.flatMap OptionGroup.roles := by
    rw [OptionGroup.roles_written_append, roles_of_dashed h hd, roles_written]
  have hplain : Role.plain ∉
      before.flatMap OptionGroup.roles ++ .dashed :: after.flatMap OptionGroup.roles := by
    simp [plain_not_mem, -List.mem_flatMap]
  -- the dashed argument stands right behind the arguments of the groups before it
  have hidx : (before.flatMap OptionGroup.roles ++ .dashed ::
      after.flatMap OptionGroup.roles).findIdx? (· == .dashed) =
        some (OptionGroup.written before).length := by
    rw [List.findIdx?_append, findIdx?_dashed, ← OptionGroup.length_roles]
    simp [List.findIdx?_cons]
  rw [routeSource, if_neg (endOfOptions_not_mem_among before after hend), hroles, if_neg hplain,
    hidx]
  simp [List.eraseIdx_append_of_length_le]

/-- A source that looks like an option with a value is left among the options. -/
theorem routeSource_of_isSome (hend : s ≠ endOfOptions) (hname : Switch.ofName? s = none)
    (h : (Switch.ofName? (nameOf s)).isSome = true) :
    routeSource (OptionGroup.written before ++ s :: OptionGroup.written after) =
      OptionGroup.written before ++ s :: OptionGroup.written after := by
  have hroles : roles false (OptionGroup.written before ++ s :: OptionGroup.written after) =
      before.flatMap OptionGroup.roles ++ .option :: after.flatMap OptionGroup.roles := by
    rw [OptionGroup.roles_written_append, roles_of_option h, takesNext_of_none hname,
      roles_written]
  have hplain : Role.plain ∉
      before.flatMap OptionGroup.roles ++ .option :: after.flatMap OptionGroup.roles := by
    simp [plain_not_mem, -List.mem_flatMap]
  have hidx : (before.flatMap OptionGroup.roles ++ .option ::
      after.flatMap OptionGroup.roles).findIdx? (· == .dashed) = none := by
    rw [List.findIdx?_append, findIdx?_dashed, List.findIdx?_cons, findIdx?_dashed]
    rfl
  rw [routeSource, if_neg (endOfOptions_not_mem_among before after hend), hroles, if_neg hplain,
    hidx]

end Among

/-- A dash source among option groups is passed on behind them and two dashes exactly if it does not
start with the name of an option and an equals sign. With such a start the arguments are passed on as
they are. -/
theorem routeSource_among_groups_iff (before after : List OptionGroup) {s : String}
    (hd : startsWithDash s = true) (hend : s ≠ endOfOptions) (hname : Switch.ofName? s = none) :
    let args := OptionGroup.written before ++ s :: OptionGroup.written after
    (routeSource args =
        OptionGroup.written before ++ OptionGroup.written after ++ [endOfOptions, s] ↔
      Switch.ofName? (nameOf s) = none) ∧
    (Switch.ofName? (nameOf s) ≠ none → routeSource args = args) := by
  intro args
  cases h : Switch.ofName? (nameOf s) with
  | none =>
    have hroute := routeSource_of_none before after hd hend h
    exact ⟨iff_of_true hroute rfl, fun hne => absurd rfl hne⟩
  | some option =>
    have hroute : routeSource args = args :=
      routeSource_of_isSome before after hend hname (by rw [h]; rfl)
    refine ⟨iff_of_false ?_ (Option.some_ne_none option), fun _ => hroute⟩
    -- the two dashes make the passed arguments longer
    intro heq
    have hlen := congrArg List.length (hroute.symm.trans heq)
    simp [args] at hlen

/-- A negated division between a flag and an output path that itself starts with a dash. -/
theorem routeSource_among_groups_division :
    let before := [OptionGroup.flag "--run" (by decide)]
    let after := [OptionGroup.output "-o" "-out" (by decide) (by decide)]
    (startsWithDash "-8/3" = true ∧ "-8/3" ≠ endOfOptions ∧ Switch.ofName? "-8/3" = none) ∧
      routeSource (OptionGroup.written before ++ "-8/3" :: OptionGroup.written after) =
        ["--run", "-o", "-out", "--", "-8/3"] := by
  intro before after
  have hd : startsWithDash "-8/3" = true := by decide
  have hend : "-8/3" ≠ endOfOptions := by decide
  have hname : Switch.ofName? "-8/3" = none := by decide
  exact ⟨⟨hd, hend, hname⟩,
    (routeSource_among_groups_iff before after hd hend hname).1.mpr (by decide)⟩

/-- A comparison of a negated variable whose name is a flag's letter is not found. -/
theorem negated_comparison_not_routed :
    (startsWithDash "-c==1" = true ∧ "-c==1" ≠ endOfOptions ∧ Switch.ofName? "-c==1" = none ∧
      "--output=".isPrefixOf "-c==1" = false) ∧
      routeSource ["--run", "-c==1"] ≠ ["--run", "--", "-c==1"] := by
  decide

end WordLang
