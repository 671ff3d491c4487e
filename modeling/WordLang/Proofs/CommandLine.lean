import WordLang.CommandLine
import WordLang.CommandLine.Reader
import WordLang.Proofs.Compilation

/-! All or nothing. The command prints what it was asked for or prints nothing, and it has a file
written only when everything that comes before has gone well. Texts and files that were put out stay
when work is broken off, so that they have to be found missing. -/
namespace WordLang

theorem ExitCode.number_eq_zero_iff {e : ExitCode} : e.number = 0 ↔ e = .success := by
  cases e <;> simp [number]

theorem Trouble.exitCode_ne_success (t : Trouble) : t.exitCode ≠ .success := by
  cases t with
  | diagnostic d =>
    rw [exitCode]
    split <;> decide
  | _ => exact ExitCode.noConfusion

/-! ### Work that puts nothing out -/

/-- What was printed and written. What is told of troubles is left aside. -/
def Output.deeds (o : Output) : String × List (String × String) := (o.stdout, o.written)

section Deeds

variable {ε α β : Type} {bad : ε → Prop} {work : EStateM ε Output α} {f : α → EStateM ε Output β}

/-- Work that is broken off in a bad way only, and only before it has put anything out. -/
def BreaksClean (bad : ε → Prop) (work : EStateM ε Output α) : Prop :=
  ∀ o e o', work o = .error e o' → bad e ∧ o'.deeds = o.deeds

/-- Work that puts nothing out, done or broken off. -/
structure Silent (bad : ε → Prop) (work : EStateM ε Output α) : Prop where
  broken : BreaksClean bad work
  done : ∀ o a o', work o = .ok a o' → o'.deeds = o.deeds

/-- Work that has no file written when it is done. -/
def KeepsFiles (work : EStateM ε Output α) : Prop :=
  ∀ o a o', work o = .ok a o' → o'.written = o.written

/-- Work that comes to a result, on what was put out so far. -/
def Completes (work : EStateM ε Output α) (o : Output) : Prop := ∃ a o', work o = .ok a o'

theorem exists_error_of_not_completes {o : Output} (h : ¬Completes work o) :
    ∃ e o', work o = .error e o' := by
  cases hw : work o with
  | ok a o' => exact absurd ⟨a, o', hw⟩ h
  | error e o' => exact ⟨e, o', rfl⟩

theorem completes_pure (a : α) (o : Output) : Completes (pure a : EStateM ε Output α) o :=
  ⟨a, o, rfl⟩

theorem not_completes_throw (e : ε) (o : Output) :
    ¬Completes (throw e : EStateM ε Output α) o := by
  rintro ⟨a, o', h⟩
  cases h

theorem breaksClean_of_completes (h : ∀ o, Completes work o) : BreaksClean bad work := by
  intro o e o' he
  obtain ⟨a, o₁, ha⟩ := h o
  rw [ha] at he
  cases he

namespace Silent

theorem pure (a : α) : Silent bad (pure a) where
  broken _ _ _ h := by cases h
  done _ _ _ h := by
    cases h
    rfl

theorem throw {e : ε} (h : bad e) : Silent bad (throw e : EStateM ε Output α) where
  broken _ _ _ he := by
    cases he
    exact ⟨h, rfl⟩
  done _ _ _ he := by cases he

theorem modify {g : Output → Output} (h : ∀ o, (g o).deeds = o.deeds) :
    Silent bad (modify g) where
  broken _ _ _ he := by cases he
  done _ _ _ he := by
    cases he
    exact h _

/-- Behind work that puts nothing out, the rest decides. -/
theorem bind_breaksClean (h : Silent bad work) (hf : ∀ a, BreaksClean bad (f a)) :
    BreaksClean bad (work >>= f) := by
  intro o e o' he
  obtain he | ⟨a, o₁, ha, he⟩ := exists_of_bind_error he
  · exact h.broken o e o' he
  · obtain ⟨hbad, hdeeds⟩ := hf a o₁ e o' he
    exact ⟨hbad, hdeeds.trans (h.done o a o₁ ha)⟩

theorem bind (h : Silent bad work) (hf : ∀ a, Silent bad (f a)) : Silent bad (work >>= f) where
  broken := h.bind_breaksClean fun a => (hf a).broken
  done o b o' hb := by
    obtain ⟨a, o₁, ha, hb⟩ := exists_of_bind_ok hb
    exact ((hf a).done o₁ b o' hb).trans (h.done o a o₁ ha)

theorem keepsFiles (h : Silent bad work) : KeepsFiles work := fun o a o' ha =>
  congrArg Prod.snd (h.done o a o' ha)

end Silent

theorem KeepsFiles.bind (h : KeepsFiles work) (hf : ∀ a, KeepsFiles (f a)) :
    KeepsFiles (work >>= f) := by
  intro o b o' hb
  obtain ⟨a, o₁, ha, hb⟩ := exists_of_bind_ok hb
  exact (hf a o₁ b o' hb).trans (h o a o₁ ha)

theorem completes_bind_of_completes (h : ∀ a o, Completes (f a) o) {o : Output} :
    Completes (work >>= f) o ↔ Completes work o := by
  constructor
  · rintro ⟨b, o', hb⟩
    obtain ⟨a, o₁, ha, -⟩ := exists_of_bind_ok hb
    exact ⟨a, o₁, ha⟩
  · rintro ⟨a, o₁, ha⟩
    rw [Completes, bind_of_ok ha]
    exact h a o₁

end Deeds

/-! ### Printing and telling -/

namespace Toolkit

variable {ε α : Type} (kit : Toolkit)

theorem completes_echo (text : String) (o : Output) :
    Completes (kit.echo text : EStateM ε Output Unit) o := ⟨(), _, rfl⟩

theorem keepsFiles_echo (text : String) :
    KeepsFiles (kit.echo text : EStateM ε Output Unit) := by
  intro o a o' h
  cases h
  rfl

/-- The texts of values, one after the other. -/
theorem completes_forM_echo (text : α → String) (xs : List α) (o : Output) :
    Completes (xs.forM fun x => (kit.echo (text x) : EStateM ε Output Unit)) o := by
  induction xs generalizing o with
  | nil => exact ⟨(), o, rfl⟩
  | cons x xs ih => exact ih _

theorem keepsFiles_forM_echo (text : α → String) (xs : List α) :
    KeepsFiles (xs.forM fun x => (kit.echo (text x) : EStateM ε Output Unit)) := by
  induction xs with
  | nil =>
    intro o a o' h
    cases h
    rfl
  | cons x xs ih => exact (kit.keepsFiles_echo _).bind fun _ => ih

/-- Telling a trouble leaves what was printed and written, and ends in an exit. -/
theorem exists_handle (verbose : Bool) (title : Option String) (t : Trouble) (o : Output) :
    ∃ o', (kit.handle verbose title t : Handled α) o = .error t.exitCode o' ∧
      o'.deeds = o.deeds := by
  by_cases h : verbose = true ∧ t.exitCode = .internalError
  · rw [handle, Trouble.showPlace, if_pos h]
    exact ⟨_, rfl, rfl⟩
  · rw [handle, Trouble.showPlace, if_neg h]
    exact ⟨_, rfl, rfl⟩

end Toolkit

/-! ### Handled work -/

/-- Trouble, or an exit that is no success. -/
def Break.Failing : Break → Prop
  | .trouble _ => True
  | .exit code => code ≠ .success

section Handling

variable {α : Type} {work : Work α} {kit : Toolkit} {verbose : Bool} {o o' : Output}

theorem silent_exits_handle (title : Option String) (t : Trouble) :
    Silent Break.Failing (kit.handle verbose title t : Handled α).exits where
  broken o e o' he := by
    obtain ⟨o₁, h, hdeeds⟩ := kit.exists_handle (α := α) verbose title t o
    rw [Handled.exits, h] at he
    cases he
    exact ⟨t.exitCode_ne_success, hdeeds⟩
  done o a o' ha := by
    obtain ⟨o₁, h, -⟩ := kit.exists_handle (α := α) verbose title t o
    rw [Handled.exits, h] at ha
    cases ha

theorem handled_eq_ok {a : α} : work.handled kit verbose o = .ok a o' ↔ work o = .ok a o' := by
  rw [Work.handled]
  cases hw : work o with
  | ok b o₁ => simp only [EStateM.Result.ok.injEq]
  | error b o₁ =>
    cases b with
    | exit code => simp only [reduceCtorEq]
    | trouble t =>
      obtain ⟨o₂, h, -⟩ := kit.exists_handle (α := α) verbose none t o₁
      simp only [h, reduceCtorEq]

theorem breaksClean_handled (h : BreaksClean Break.Failing work) :
    BreaksClean (· ≠ .success) (work.handled kit verbose) := by
  intro o e o' he
  rw [Work.handled] at he
  cases hw : work o with
  | ok a o₁ =>
    rw [hw] at he
    cases he
  | error b o₁ =>
    obtain ⟨hbad, hdeeds⟩ := h o b o₁ hw
    rw [hw] at he
    cases b with
    | exit code =>
      cases he
      exact ⟨hbad, hdeeds⟩
    | trouble t =>
      obtain ⟨o₂, hhandle, hsame⟩ := kit.exists_handle (α := α) verbose none t o₁
      simp only [hhandle] at he
      cases he
      exact ⟨t.exitCode_ne_success, hsame.trans hdeeds⟩

end Handling

/-! ### Requests -/

/-- A text runs to a value within the steps that the command allows. -/
def runs (assembly : String) : Bool :=
  (runAssembly assembly Machine.defaultStepLimit).toOption.any fun run =>
    run.outcome.toOption.isSome

theorem Output.deeds_logged (o : Output) (verbose : Bool) (notes : List Note) :
    (o.logged verbose notes).deeds = o.deeds := by
  rw [logged]
  split <;> rfl

namespace Request

variable {α β : Type} (r : Request) (kit : Toolkit) {o : Output}

theorem silent_note {bad : Break → Prop} (n : Note) : Silent bad (r.note n) :=
  Silent.modify fun o => o.deeds_logged _ _

theorem stage_of_ok {work : Stage α} {a : α} (h : work.outcome = .ok a) (o : Output) :
    r.stage work o = .ok a (o.logged r.verbose work.notes) := by
  rw [Stage.outcome] at h
  rw [stage, Stage.notes]
  cases hw : work [] with
  | ok b notes =>
    rw [hw] at h
    cases h
    rfl
  | error e notes =>
    rw [hw] at h
    cases h

theorem stage_of_error {work : Stage α} {e : Failure} (h : work.outcome = .error e) (o : Output) :
    r.stage work o = .error (.trouble (.ofFailure e)) (o.logged r.verbose work.notes) := by
  rw [Stage.outcome] at h
  rw [stage, Stage.notes]
  cases hw : work [] with
  | ok b notes =>
    rw [hw] at h
    cases h
  | error e notes =>
    rw [hw] at h
    cases h
    rfl

theorem silent_stage (work : Stage α) : Silent Break.Failing (r.stage work) := by
  cases h : work.outcome with
  | ok a =>
    constructor
    · intro o e o' he
      rw [r.stage_of_ok h] at he
      cases he
    · intro o a o' ha
      rw [r.stage_of_ok h] at ha
      cases ha
      exact o.deeds_logged _ _
  | error e =>
    constructor
    · intro o e o' he
      rw [r.stage_of_error h] at he
      cases he
      exact ⟨trivial, o.deeds_logged _ _⟩
    · intro o a o' ha
      rw [r.stage_of_error h] at ha
      cases ha

theorem completes_stage (work : Stage α) :
    Completes (r.stage work) o ↔ ∃ a, work.outcome = .ok a := by
  cases h : work.outcome with
  | ok a => simp [Completes, r.stage_of_ok h]
  | error e => simp [Completes, r.stage_of_error h]

theorem silent_compiled : Silent Break.Failing r.compiled :=
  (r.silent_stage _).bind fun _ => (r.silent_note _).bind fun _ => .pure _

theorem exists_compiled_of_ok {c : Compilation} (h : (r.options.compile r.input).outcome = .ok c)
    (o : Output) : ∃ o', r.compiled o = .ok c o' := by
  rw [compiled, bind_of_ok (r.stage_of_ok h o)]
  exact ⟨_, rfl⟩

theorem compiled_of_error {e : Failure} (h : (r.options.compile r.input).outcome = .error e)
    (o : Output) : r.compiled o = .error (.trouble (.ofFailure e))
      (o.logged r.verbose (r.options.compile r.input).notes) :=
  bind_of_error (r.stage_of_error h o) _

/-- What follows a compilation is done if the source compiles and the rest is done. -/
theorem completes_compiled_bind {f : Compilation → Work α} {P : Compilation → Prop}
    (hf : ∀ c o, Completes (f c) o ↔ P c) :
    Completes (r.compiled >>= f) o ↔ ∃ c, (r.options.compile r.input).outcome = .ok c ∧ P c := by
  cases h : (r.options.compile r.input).outcome with
  | ok c =>
    obtain ⟨o', hc⟩ := r.exists_compiled_of_ok h o
    have hf' : Completes (r.compiled >>= f) o ↔ Completes (f c) o' := by
      rw [Completes, bind_of_ok hc, Completes]
    simpa using hf'.trans (hf c o')
  | error e =>
    simp [Completes, bind_of_error (r.compiled_of_error h o)]

theorem silent_value (assembly : String) : Silent Break.Failing (r.value kit assembly) := by
  rw [value]
  cases runAssembly assembly Machine.defaultStepLimit with
  | error f => exact silent_exits_handle _ _
  | ok run =>
    cases ho : run.outcome with
    | error halt =>
      cases halt with
      | fault f => simpa only [ho] using silent_exits_handle _ _
      | outOfRange => simpa only [ho] using Silent.throw trivial
    | ok v =>
      cases v with
      | none => simpa only [ho] using Silent.pure _
      | some v => simpa only [ho] using (r.silent_note _).bind fun _ => .pure _

theorem completes_value (assembly : String) :
    Completes (r.value kit assembly) o ↔ runs assembly = true := by
  have hfault (f : Fault) : ¬Completes
      (kit.handle r.verbose (some "Runtime") (.fault f) : Handled (Option Int)).exits o := by
    obtain ⟨o', h, -⟩ := kit.exists_handle (α := Option Int) r.verbose (some "Runtime") (.fault f) o
    simp [Completes, Handled.exits, h]
  rw [value, runs]
  cases runAssembly assembly Machine.defaultStepLimit with
  | error f => simpa [Except.toOption] using hfault f
  | ok run =>
    cases ho : run.outcome with
    | error halt =>
      cases halt with
      | fault f => simpa [Except.toOption, ho] using hfault f
      | outOfRange => simpa [Except.toOption, ho] using not_completes_throw _ o
    | ok v =>
      cases v with
      | none => simpa [Except.toOption, ho] using completes_pure _ o
      | some v =>
        simp only [Except.toOption, ho, Option.any_some, Option.isSome_some, iff_true]
        exact ⟨_, _, rfl⟩

theorem completes_write (fs : FileSystem) (path assembly : String) :
    Completes (r.write fs path assembly) o ↔ fs.write path assembly = none := by
  rw [write]
  cases fs.write path assembly with
  | none => exact iff_of_true ⟨(), _, rfl⟩ rfl
  | some e => exact iff_of_false (not_completes_throw _ o) (Option.some_ne_none e)

/-- A write that the system refuses writes nothing, and one that it does not refuse is done. -/
theorem breaksClean_write (fs : FileSystem) (path assembly : String) :
    BreaksClean Break.Failing (r.write fs path assembly) := by
  rw [write]
  cases fs.write path assembly with
  | none => exact breaksClean_of_completes fun o => ⟨(), _, rfl⟩
  | some e => exact (Silent.throw trivial).broken

/-- A stage of the compiler fails on the source of a request, or the program is to be run and
faults. -/
inductive StageFails (r : Request) : Prop
  | scanning {e : Failure} (h : (r.options.tokenize r.input).outcome = .error e)
  | parsing {tokens : List Token} {e : Failure}
      (ht : (r.options.tokenize r.input).outcome = .ok tokens)
      (h : (r.options.parse r.input tokens).outcome = .error e)
  | generating {tokens : List Token} {program : Program} {slots : SlotTable} {e : Failure}
      (ht : (r.options.tokenize r.input).outcome = .ok tokens)
      (hp : (r.options.parse r.input tokens).outcome = .ok (program, slots))
      (h : (r.options.generate program slots).outcome = .error e)
  | running {c : Compilation} (hr : r.run = true)
      (hc : (r.options.compile r.input).outcome = .ok c) (h : runs c.assembly = false)

end Request

/-! ### Goals -/

namespace Goal

variable {r : Request} {fs : FileSystem} {g : Goal} (kit : Toolkit)

/-- The stage that makes what is wanted succeeds. -/
def Reached (r : Request) (fs : FileSystem) : Goal → Prop
  | .tokens => ∃ tokens, (r.options.tokenize r.input).outcome = .ok tokens
  | .outline => ∃ program, (r.options.parseSource r.input).outcome = .ok program
  | .value => ∃ c, (r.options.compile r.input).outcome = .ok c ∧ runs c.assembly = true
  | .file path => ∃ c, (r.options.compile r.input).outcome = .ok c ∧
      fs.write path c.assembly = none
  | .text => ∃ c, (r.options.compile r.input).outcome = .ok c

/-- The work towards a goal is done exactly when the goal is reached. -/
theorem completes_pursue (g : Goal) (o : Output) :
    Completes (g.pursue r kit fs) o ↔ g.Reached r fs := by
  cases g with
  | tokens =>
    rw [pursue, completes_bind_of_completes fun tokens => kit.completes_forM_echo _ tokens]
    exact r.completes_stage _
  | outline =>
    rw [pursue, completes_bind_of_completes fun _ => kit.completes_echo _]
    exact r.completes_stage _
  | value =>
    refine r.completes_compiled_bind fun c o => ?_
    rw [completes_bind_of_completes fun _ => kit.completes_echo _]
    exact r.completes_value kit c.assembly
  | file path => exact r.completes_compiled_bind fun c o => r.completes_write fs path c.assembly
  | text =>
    have htext := r.completes_compiled_bind (o := o) (f := fun c => kit.echo c.assembly)
      (P := fun _ => True) fun c o => iff_true_intro (kit.completes_echo c.assembly o)
    simp only [and_true] at htext
    exact htext

/-- Whatever the goal, printing and writing come last. -/
theorem breaksClean_pursue (g : Goal) : BreaksClean Break.Failing (g.pursue r kit fs) := by
  cases g with
  | tokens =>
    exact (r.silent_stage _).bind_breaksClean fun tokens =>
      breaksClean_of_completes (kit.completes_forM_echo _ tokens)
  | outline =>
    exact (r.silent_stage _).bind_breaksClean fun _ =>
      breaksClean_of_completes (kit.completes_echo _)
  | value =>
    exact r.silent_compiled.bind_breaksClean fun c =>
      (r.silent_value kit c.assembly).bind_breaksClean fun _ =>
        breaksClean_of_completes (kit.completes_echo _)
  | file path => exact r.silent_compiled.bind_breaksClean fun c => r.breaksClean_write fs path _
  | text =>
    exact r.silent_compiled.bind_breaksClean fun _ =>
      breaksClean_of_completes (kit.completes_echo _)

/-- Only the work towards a file has one written. -/
theorem keepsFiles_pursue (h : ∀ path, g ≠ .file path) : KeepsFiles (g.pursue r kit fs) := by
  cases g with
  | file path => exact absurd rfl (h path)
  | tokens =>
    exact (r.silent_stage _).keepsFiles.bind fun tokens => kit.keepsFiles_forM_echo _ tokens
  | outline => exact (r.silent_stage _).keepsFiles.bind fun _ => kit.keepsFiles_echo _
  | value =>
    exact r.silent_compiled.keepsFiles.bind fun c =>
      (r.silent_value kit c.assembly).keepsFiles.bind fun _ => kit.keepsFiles_echo _
  | text => exact r.silent_compiled.keepsFiles.bind fun _ => kit.keepsFiles_echo _

/-- Only the work towards a file depends on what the system answers. -/
theorem pursue_eq_of_ne_file (h : ∀ path, g ≠ .file path) (fs fs' : FileSystem) :
    g.pursue r kit fs = g.pursue r kit fs' := by
  cases g with
  | file path => exact absurd rfl (h path)
  | _ => rfl

end Goal

namespace Request

variable {r : Request} {kit : Toolkit}

theorem run_eq_false_of_goal {path : String} (h : r.goal = .file path) : r.run = false := by
  cases hr : r.run with
  | false => rfl
  | true =>
    rw [goal, hr] at h
    split at h
    · cases h
    · split at h <;> cases h

theorem StageFails.exists_error (h : r.StageFails) (hr : r.run = false) :
    ∃ e, (r.options.compile r.input).outcome = .error e := by
  rw [Options.compile_stages]
  cases h with
  | @scanning e h => exact ⟨e, bind_eq_error.mpr (.inl h)⟩
  | @parsing tokens e ht h =>
    exact ⟨e, bind_eq_error.mpr (.inr ⟨tokens, ht, bind_eq_error.mpr (.inl h)⟩)⟩
  | @generating tokens program slots e ht hp h =>
    refine ⟨e, bind_eq_error.mpr (.inr ⟨tokens, ht, bind_eq_error.mpr (.inr ⟨_, hp, ?_⟩)⟩)⟩
    exact bind_eq_error.mpr (.inl h)
  | running hr' => exact absurd (hr.symm.trans hr') (by decide)

/-- If a stage fails then the system is not asked to write, and no file is written. -/
theorem StageFails.pursue (h : r.StageFails) (kit : Toolkit) (fs : FileSystem) :
    (∀ fs', r.goal.pursue r kit fs' = r.goal.pursue r kit fs) ∧
      KeepsFiles (r.goal.pursue r kit fs) := by
  by_cases hg : ∃ path, r.goal = .file path
  · obtain ⟨path, hg⟩ := hg
    obtain ⟨e, he⟩ := h.exists_error (run_eq_false_of_goal hg)
    have hfails (fs : FileSystem) (o : Output) : r.goal.pursue r kit fs o =
        .error (.trouble (.ofFailure e))
          (o.logged r.verbose (r.options.compile r.input).notes) := by
      rw [hg]
      exact bind_of_error (r.compiled_of_error he o) _
    refine ⟨fun fs' => funext fun o => (hfails fs' o).trans (hfails fs o).symm, fun o a o' ha => ?_⟩
    rw [hfails fs] at ha
    cases ha
  · have hne : ∀ path, r.goal ≠ .file path := fun path hpath => hg ⟨path, hpath⟩
    exact ⟨fun fs' => Goal.pursue_eq_of_ne_file kit hne fs' fs, Goal.keepsFiles_pursue kit hne⟩

theorem report_of_ok {fs : FileSystem} {o : Output}
    (h : r.perform kit fs .nothing = .ok () o) : (r.perform kit fs).report = ⟨o, .success⟩ := by
  rw [Handled.report, h]

/-- A request that is broken off ends without success, and has printed and written nothing. -/
theorem report_of_error {fs : FileSystem} {code : ExitCode} {o : Output}
    (h : r.perform kit fs .nothing = .error code o) :
    let report := (r.perform kit fs).report
    report.exit ≠ .success ∧ report.stdout = "" ∧ report.written = [] := by
  obtain ⟨hcode, hdeeds⟩ :=
    breaksClean_handled (Goal.breaksClean_pursue kit r.goal) .nothing code o h
  rw [Handled.report, h]
  exact ⟨hcode, congrArg Prod.fst hdeeds, congrArg Prod.snd hdeeds⟩

/-- A request whose goal is reached succeeds, and any other fails and has printed nothing. -/
theorem report_cases (r : Request) (kit : Toolkit) (fs : FileSystem) :
    let report := (r.perform kit fs).report
    r.goal.Reached r fs ∧ report.exit = .success ∨
      ¬r.goal.Reached r fs ∧ report.exit ≠ .success ∧ report.stdout = "" := by
  by_cases h : r.goal.Reached r fs
  · obtain ⟨⟨⟩, o, ho⟩ := (Goal.completes_pursue kit r.goal .nothing).mpr h
    exact .inl ⟨h, by rw [report_of_ok (handled_eq_ok.mpr ho)]⟩
  · have hnot : ¬Completes (r.perform kit fs) .nothing := by
      rintro ⟨a, o, ho⟩
      exact h ((Goal.completes_pursue kit r.goal .nothing).mp ⟨a, o, handled_eq_ok.mp ho⟩)
    obtain ⟨code, o, ho⟩ := exists_error_of_not_completes hnot
    obtain ⟨hexit, hstdout, -⟩ := report_of_error ho
    exact .inr ⟨h, hexit, hstdout⟩

/-- A request on which a stage fails has the same report whatever the system answers, and no file is
written. -/
theorem StageFails.report (h : r.StageFails) (kit : Toolkit) (fs : FileSystem) :
    (∀ fs', (r.perform kit fs').report = (r.perform kit fs).report) ∧
      (r.perform kit fs).report.written = [] := by
  obtain ⟨hsame, hfiles⟩ := h.pursue kit fs
  refine ⟨fun fs' => by rw [perform, perform, hsame fs'], ?_⟩
  cases ho : r.perform kit fs .nothing with
  | ok a o =>
    rw [report_of_ok ho]
    exact hfiles _ _ _ (handled_eq_ok.mp ho)
  | error code o => exact (report_of_error ho).2.2

end Request

/-! ### The command -/

/-- What is documented of the library: wrong arguments are told on the stream for errors. -/
def Toolkit.TellsUsageErrors (kit : Toolkit) : Prop :=
  ∀ isDirectory args report, kit.read isDirectory args = .ended report →
    report.exit ≠ .success → report.stdout = ""

/-- All or nothing. A command that exits with a code other than zero prints nothing. Where the
arguments make a request, the code is zero exactly when the goal of the request is reached; and if a
stage fails, then no file is written, and the system is not even asked to: whatever it would have
answered, the report is the same. -/
theorem command_all_or_nothing {kit : Toolkit} (hkit : kit.TellsUsageErrors) (fs : FileSystem)
    (args : List String) :
    let report := runCommand kit fs args
    (report.exit.number ≠ 0 → report.stdout = "") ∧
    ∀ r, kit.read fs.isDirectory (routeSource args) = .request r →
      (r.StageFails → report.written = [] ∧
        ∀ write, runCommand kit { fs with write := write } args = report) ∧
      (report.exit.number = 0 ↔ r.goal.Reached r fs) := by
  simp only [runCommand, Ne, ExitCode.number_eq_zero_iff]
  cases hread : kit.read fs.isDirectory (routeSource args) with
  | ended report =>
    refine ⟨hkit _ _ _ hread, fun r hr => ?_⟩
    cases hr
  | request r =>
    refine ⟨fun hexit => ?_, fun r' hr' => ?_⟩
    · obtain ⟨-, hsuccess⟩ | ⟨-, -, hstdout⟩ := r.report_cases kit fs
      · exact absurd hsuccess hexit
      · exact hstdout
    · cases hr'
      refine ⟨fun hfails => ?_, ?_⟩
      · obtain ⟨hsame, hwritten⟩ := hfails.report kit fs
        exact ⟨hwritten, fun write => hsame { fs with write := write }⟩
      · obtain ⟨hreached, hsuccess⟩ | ⟨hreached, hexit, -⟩ := r.report_cases kit fs
        · exact iff_of_true hsuccess hreached
        · exact iff_of_false hexit hreached

theorem UsageError.stdout_report (e : UsageError) : e.report.stdout = "" := by
  cases e <;> rfl

theorem Toolkit.usual_tellsUsageErrors : Toolkit.usual.TellsUsageErrors := by
  intro isDirectory args report h hexit
  simp only [usual, Arguments.understand, printed] at h
  split at h
  · cases h
    exact UsageError.stdout_report _
  · split at h
    · cases h
      exact absurd rfl hexit
    · cases h
      exact absurd rfl hexit
    · split at h
      · cases h
        exact UsageError.stdout_report _
      · split at h <;> cases h <;> exact UsageError.stdout_report _

/-- A program with an open parenthesis is not written, though it was to be; a program that is well
is written to one place and refused at another; without a source nothing is done. -/
theorem command_all_or_nothing_four_ends :
    let fs : FileSystem := ⟨fun _ => false, fun path _ =>
      if path = "p.s" then none else some .permissionDenied⟩
    let read (args : List String) := Toolkit.usual.read fs.isDirectory (routeSource args)
    let faulty : Request := ⟨"x = (1", some "p.s", false, false, true, false, false⟩
    let refused : Request := ⟨"1", some "q.s", false, false, false, false, false⟩
    let written : Request := ⟨"-1", some "p.s", false, false, false, true, false⟩
    Toolkit.usual.TellsUsageErrors ∧
    (read ["-o", "p.s", "x = (1", "--run"] = .request faulty ∧ faulty.StageFails ∧
      (runCommand .usual fs ["-o", "p.s", "x = (1", "--run"]).written = []) ∧
    (read ["1", "-oq.s"] = .request refused ∧
      (runCommand .usual fs ["1", "-oq.s"]).exit.number ≠ 0 ∧
      (runCommand .usual fs ["1", "-oq.s"]).stdout = "") ∧
    (read ["-c", "-1", "--output=./p.s"] = .request written ∧
      (runCommand .usual fs ["-c", "-1", "--output=./p.s"]).exit.number = 0) ∧
    (runCommand .usual fs ["--run"]).exit.number ≠ 0 ∧
      (runCommand .usual fs ["--run"]).stdout = "" := by
  intro fs read faulty refused written
  have hkit := Toolkit.usual_tellsUsageErrors
  have hfaulty : read ["-o", "p.s", "x = (1", "--run"] = .request faulty := by decide +kernel
  have hrefused : read ["1", "-oq.s"] = .request refused := by decide +kernel
  have hwritten : read ["-c", "-1", "--output=./p.s"] = .request written := by decide +kernel
  refine ⟨hkit, ⟨hfaulty, ?_⟩, ⟨hrefused, ?_⟩, ⟨hwritten, ?_⟩, ?_⟩
  · obtain ⟨tokens, ht, hparse⟩ := exists_of_any_toOption
      (show (faulty.options.tokenize faulty.input).outcome.toOption.any (fun tokens =>
        (faulty.options.parse faulty.input tokens).outcome.toOption.isNone) = true by
          decide +kernel)
    have hfails : faulty.StageFails := by
      cases hp : (faulty.options.parse faulty.input tokens).outcome with
      | ok p =>
        rw [hp] at hparse
        cases hparse
      | error e => exact .parsing ht hp
    exact ⟨hfails, (((command_all_or_nothing hkit fs _).2 faulty hfaulty).1 hfails).1⟩
  · obtain ⟨hprints, hrequest⟩ := command_all_or_nothing hkit fs ["1", "-oq.s"]
    have hexit : (runCommand .usual fs ["1", "-oq.s"]).exit.number ≠ 0 := by
      rw [Ne, (hrequest refused hrefused).2]
      rintro ⟨c, -, hc⟩
      cases hc
    exact ⟨hexit, hprints hexit⟩
  · obtain ⟨c, hc, -⟩ := exists_of_any_toOption
      (show (written.options.compile written.input).outcome.toOption.any (fun _ => true) = true by
        decide +kernel)
    exact ((command_all_or_nothing hkit fs _).2 written hwritten).2.mpr ⟨c, hc, rfl⟩
  · have hexit : (runCommand .usual fs ["--run"]).exit.number ≠ 0 := by decide +kernel
    exact ⟨hexit, (command_all_or_nothing hkit fs ["--run"]).1 hexit⟩

end WordLang
