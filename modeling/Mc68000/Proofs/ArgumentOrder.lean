import Mathlib.Data.List.Perm.Basic
import Mc68000.CommandLine.Arguments

/-!
# The order of arguments

Where an option stands on the command line makes no difference.

* `plain`, `levelOf` -- arguments without the logging options, and what those ask for;
* `parse_eq_command_iff` -- the two are read apart; `parse_of_help` -- a plea for help wins;
* `Inserted` -- arguments with others put between them;
* `Part` -- an option with its value, or an input; `Part.divide` -- the parts of arguments;
* `Settings.parse_arguments`, `Settings.parts_of_parse` -- arguments are read part by part;
* `Settings.takeAll_perm`, `command_parse_perm` -- **parts of distinct options may be taken in any
  order**, and so may the parts of a command;
* `Invocation.parse_anywhere` -- **so logging options may stand anywhere, and the parts of a command
  in any order**.
-/

namespace Mc68000.CommandLine

/-! ## 1. Levels -/

namespace LogLevel

/-- How talkative a level is. -/
def rank : LogLevel → Nat
  | info => 0
  | debug => 1
  | trace => 2

theorem rank_max (a b : LogLevel) : (a.max b).rank = Max.max a.rank b.rank := by
  cases a <;> cases b <;> rfl

theorem rank_inj {a b : LogLevel} (h : a.rank = b.rank) : a = b := by
  cases a <;> cases b <;> first | rfl | cases h

/-- Whichever of two levels is asked for first. -/
theorem max_right_comm (a b c : LogLevel) : (a.max b).max c = (a.max c).max b := by
  apply rank_inj
  simp only [rank_max]
  omega

end LogLevel

/-- The most talkative of a level and further ones, in whatever order they come. -/
theorem foldl_max_perm {ls ls' : List LogLevel} (h : ls.Perm ls') (level : LogLevel) :
    ls.foldl LogLevel.max level = ls'.foldl LogLevel.max level :=
  h.foldl_eq' (fun a _ b _ l => LogLevel.max_right_comm l a b) level

/-! ## 2. Logging options -/

/-- The options that only ask for more or less of a log. -/
def loggingOptions : List String := ["-v", "--verbose", "--trace"]

/-- What a logging option asks for. -/
def requestedLevel (arg : String) : LogLevel := if arg = "--trace" then .trace else .debug

theorem logLevel?_eq (arg : String) :
    logLevel? arg = if arg ∈ loggingOptions then some (requestedLevel arg) else none := by
  unfold logLevel? requestedLevel loggingOptions
  by_cases hlong : arg = "--verbose"
  · simp [hlong]
  · by_cases hshort : arg = "-v"
    · simp [hshort]
    · by_cases htrace : arg = "--trace"
      · simp [htrace]
      · simp [hlong, hshort, htrace]

/-- Arguments without the logging options. -/
def plain (args : List String) : List String := args.filter (· ∉ loggingOptions)

/-- The logging options among arguments. -/
def logging (args : List String) : List String := args.filter (· ∈ loggingOptions)

/-- The level that arguments ask for. -/
def levelOf (args : List String) : LogLevel :=
  ((logging args).map requestedLevel).foldl LogLevel.max .info

theorem filterMap_logLevel? (args : List String) :
    args.filterMap logLevel? = (logging args).map requestedLevel := by
  induction args with
  | nil => rfl
  | cons arg args ih =>
    rw [logging] at ih ⊢
    by_cases h : arg ∈ loggingOptions
    · rw [List.filterMap_cons, logLevel?_eq, if_pos h, List.filter_cons_of_pos (by simpa using h), ih]
      rfl
    · rw [List.filterMap_cons, logLevel?_eq, if_neg h, List.filter_cons_of_neg (by simpa using h), ih]

theorem filter_logLevel? (args : List String) :
    args.filter (fun arg => (logLevel? arg).isNone) = plain args := by
  refine List.filter_congr fun arg _ => ?_
  rw [logLevel?_eq]
  by_cases h : arg ∈ loggingOptions <;> simp [h]

/-- **Logging options and the rest are read apart.** -/
theorem parse_eq_command_iff {args : List String} {c : Command} {level : LogLevel} :
    Invocation.parse args = .ok (.command c level) ↔
      args.any asksForHelp = false ∧ Command.parse (plain args) = .ok c ∧ level = levelOf args := by
  unfold Invocation.parse
  rw [filterMap_logLevel?, filter_logLevel?]
  cases args.any asksForHelp with
  | true => simp
  | false =>
    cases hc : Command.parse (plain args) with
    | error e => exact ⟨nofun, fun h => nomatch h.2.1⟩
    | ok c' =>
      show (Except.ok (Invocation.command c' (levelOf args)) : Except ArgumentError _) = _ ↔ _
      constructor
      · intro h
        cases h
        exact ⟨rfl, rfl, rfl⟩
      · rintro ⟨-, h, rfl⟩
        cases h
        rfl

theorem parse_of_help {args : List String} (h : ∃ arg ∈ args, arg = "-h" ∨ arg = "--help") :
    Invocation.parse args = .ok .help := by
  obtain ⟨arg, harg, hplea⟩ := h
  have hasks : asksForHelp arg = true := by
    rcases hplea with rfl | rfl <;> decide
  unfold Invocation.parse
  rw [if_pos (List.any_eq_true.mpr ⟨arg, harg, hasks⟩)]

/-! ## 3. Arguments put between others -/

/-- `args'` is `args` with `more` put between its arguments, in order but anywhere. -/
inductive Inserted : List String → List String → List String → Prop where
  | nil : Inserted [] [] []
  | keep {more args args' : List String} (arg : String) (h : Inserted more args args') :
      Inserted more (arg :: args) (arg :: args')
  | insert {more args args' : List String} (arg : String) (h : Inserted more args args') :
      Inserted (arg :: more) args (arg :: args')

namespace Inserted

variable {more args args' : List String}

theorem perm (h : Inserted more args args') : args'.Perm (args ++ more) := by
  induction h with
  | nil => exact .nil
  | keep arg _ ih => exact ih.cons arg
  | insert arg _ ih => exact (ih.cons arg).trans List.perm_middle.symm

theorem plain_eq (h : Inserted more args args') (hmore : ∀ arg ∈ more, arg ∈ loggingOptions) :
    plain args' = plain args := by
  induction h with
  | nil => rfl
  | keep arg _ ih =>
    rw [plain, plain, List.filter_cons, List.filter_cons]
    rw [plain, plain] at ih
    rw [ih hmore]
  | insert arg _ ih =>
    obtain ⟨harg, hmore⟩ := List.forall_mem_cons.mp hmore
    rw [plain, List.filter_cons_of_neg (by simpa using harg)]
    exact ih hmore

/-- The arguments put in ask for their levels too. -/
theorem levelOf_eq (h : Inserted more args args') (hmore : ∀ arg ∈ more, arg ∈ loggingOptions) :
    levelOf args' = (more.map requestedLevel).foldl LogLevel.max (levelOf args) := by
  have hall : logging more = more :=
    List.filter_eq_self.mpr fun arg harg => by simpa using hmore arg harg
  have hperm : ((logging args').map requestedLevel).Perm
      ((logging args).map requestedLevel ++ more.map requestedLevel) := by
    rw [← List.map_append]
    conv => rhs; rw [← hall]
    rw [logging, logging, logging, ← List.filter_append]
    exact (h.perm.filter _).map _
  rw [levelOf, foldl_max_perm hperm, List.foldl_append]
  rfl

theorem asksForHelp_eq (h : Inserted more args args')
    (hmore : ∀ arg ∈ more, arg ∈ loggingOptions) :
    args'.any asksForHelp = args.any asksForHelp := by
  have hnone : more.any asksForHelp = false := by
    rw [List.any_eq_false]
    intro arg harg
    have hlogs := hmore arg harg
    simp only [loggingOptions, List.mem_cons, List.not_mem_nil, or_false] at hlogs
    rcases hlogs with rfl | rfl | rfl <;> decide
  rw [h.perm.any_eq, List.any_append, hnone, Bool.or_false]

end Inserted

/-! ## 4. Parts -/

/-- An option with its value, or an input. -/
inductive Part where
  | option (option : ValueOption) (value : String)
  | input (path : String)
  deriving DecidableEq, Repr

namespace Part

/-- The arguments of a part, which stand together. -/
def arguments : Part → List String
  | option o value => [o.name, value]
  | input path => [path]

def option? : Part → Option ValueOption
  | option o _ => some o
  | input _ => none

def input? : Part → Option String
  | option _ _ => none
  | input path => some path

/-- The parts of arguments. What names an option takes the next argument with it. -/
def divide (allowed : List ValueOption) : List String → List Part
  | [] => []
  | arg :: rest =>
    match ValueOption.find? allowed arg with
    | none => input arg :: divide allowed rest
    | some o =>
      match rest with
      | [] => [input arg]
      | value :: rest => option o value :: divide allowed rest

/-- A part that is read as what it is among the options that are allowed. -/
def Fits (allowed : List ValueOption) : Part → Prop
  | option o _ => ValueOption.find? allowed o.name = some o
  | input path => ValueOption.find? allowed path = none

end Part

namespace Settings

variable {allowed : List ValueOption} {s s' : Settings} {args : List String}
  {parts parts' : List Part}

/-- Takes one part. -/
def take (s : Settings) : Part → Except ArgumentError Settings
  | .option o value => s.set o value
  | .input path =>
    if path.toList.head? = some '-' then .error (.unknownOption path)
    else if s.input.isSome then .error .multipleInputs
    else .ok { s with input := some path }

/-- Takes one part after the other. -/
def takeAll (s : Settings) (parts : List Part) : Except ArgumentError Settings :=
  parts.foldlM take s

theorem takeAll_cons (s : Settings) (part : Part) (parts : List Part) :
    s.takeAll (part :: parts) = (s.take part).bind fun s => s.takeAll parts := by
  rw [takeAll, List.foldlM_cons]
  rfl

theorem takeAll_cons_ok {part : Part} :
    s.takeAll (part :: parts) = .ok s' ↔ ∃ s₁, s.take part = .ok s₁ ∧ s₁.takeAll parts = .ok s' := by
  rw [takeAll_cons]
  cases s.take part with
  | error e => exact ⟨nofun, fun ⟨_, h, _⟩ => nomatch h⟩
  | ok s₁ => exact ⟨fun h => ⟨s₁, rfl, h⟩, fun ⟨_, h, hrest⟩ => by cases h; exact hrest⟩

/-- What names an option is read with the argument behind it. -/
theorem parse_option {arg : String} {o : ValueOption}
    (ho : ValueOption.find? allowed arg = some o) (s : Settings) (value : String)
    (rest : List String) :
    Settings.parse allowed s (arg :: value :: rest) =
      (s.take (.option o value)).bind fun s => Settings.parse allowed s rest := by
  rw [Settings.parse, ho]
  dsimp only [take]
  cases s.set o value <;> rfl

theorem parse_input {arg : String} (hnone : ValueOption.find? allowed arg = none) (s : Settings)
    (rest : List String) :
    Settings.parse allowed s (arg :: rest) =
      (s.take (.input arg)).bind fun s => Settings.parse allowed s rest := by
  rw [Settings.parse, hnone]
  dsimp only [take]
  split
  · rfl
  · split <;> rfl

/-- **Arguments are read part by part.** -/
theorem parse_arguments (hfits : ∀ p ∈ parts, p.Fits allowed) (s : Settings) :
    Settings.parse allowed s (parts.flatMap Part.arguments) = s.takeAll parts := by
  induction parts generalizing s with
  | nil => rfl
  | cons part parts ih =>
    obtain ⟨hpart, hparts⟩ := List.forall_mem_cons.mp hfits
    have hrest : (fun s => Settings.parse allowed s (parts.flatMap Part.arguments)) =
        fun s => s.takeAll parts := funext (ih hparts)
    rw [takeAll_cons, List.flatMap_cons, ← hrest]
    cases part with
    | option o value => exact parse_option hpart s value _
    | input path => exact parse_input hpart s _

theorem name_of_find? {arg : String} {o : ValueOption}
    (h : ValueOption.find? allowed arg = some o) : o.name = arg := by
  simpa using List.find?_some h

theorem parse_after_take {part : Part} {rest : List String}
    (h : ((s.take part).bind fun s => Settings.parse allowed s rest) = .ok s') :
    ∃ s₁, Settings.parse allowed s₁ rest = .ok s' := by
  cases hs : s.take part with
  | error e => rw [hs] at h; cases h
  | ok s₁ => rw [hs] at h; exact ⟨s₁, h⟩

/-- What is read has parts, and they give it back. -/
theorem parts_of_parse (h : Settings.parse allowed s args = .ok s') :
    (Part.divide allowed args).flatMap Part.arguments = args ∧
      ∀ p ∈ Part.divide allowed args, p.Fits allowed := by
  fun_induction Part.divide allowed args generalizing s with
  | case1 => exact ⟨rfl, nofun⟩
  | case2 arg rest hnone ih =>
    rw [parse_input hnone] at h
    obtain ⟨s₁, hrest⟩ := parse_after_take h
    obtain ⟨hargs, hfits⟩ := ih hrest
    refine ⟨?_, List.forall_mem_cons.mpr ⟨hnone, hfits⟩⟩
    rw [List.flatMap_cons, hargs]
    rfl
  | case3 arg o ho =>
    rw [Settings.parse, ho] at h
    cases h
  | case4 arg o ho value rest ih =>
    rw [parse_option ho] at h
    obtain ⟨s₁, hrest⟩ := parse_after_take h
    obtain ⟨hargs, hfits⟩ := ih hrest
    have hname : o.name = arg := name_of_find? ho
    refine ⟨?_, List.forall_mem_cons.mpr ⟨?_, hfits⟩⟩
    · rw [List.flatMap_cons, hargs, ← hname]
      rfl
    · show ValueOption.find? allowed o.name = some o
      rw [hname]
      exact ho

theorem takeAll_divide (h : Settings.parse allowed s args = .ok s') :
    s.takeAll (Part.divide allowed args) = .ok s' := by
  obtain ⟨hargs, hfits⟩ := parts_of_parse h
  rw [← parse_arguments hfits, hargs]
  exact h

/-! ## 5. Parts in another order -/

/-- What an option does to the settings once its value has been read. -/
inductive Writes : ValueOption → (Settings → Settings) → Prop where
  | address (address : Address) : Writes .address fun s => { s with address }
  | maxSteps (n : Nat) : Writes .maxSteps fun s => { s with maxSteps := some n }
  | dump (range : Address × Nat) : Writes .dump fun s => { s with dump := some range }

/-- Whether a value can be read does not depend on the settings. -/
theorem exists_writes {o : ValueOption} {value : String} (h : s.set o value = .ok s') :
    ∃ f, Writes o f ∧ ∀ s : Settings, s.set o value = .ok (f s) := by
  unfold Settings.set at h ⊢
  cases o with
  | address =>
    cases hn : number value with
    | error e => rw [hn] at h; cases h
    | ok n => exact ⟨_, .address n, fun _ => rfl⟩
  | maxSteps =>
    cases hn : number value with
    | error e => rw [hn] at h; cases h
    | ok n => exact ⟨_, .maxSteps n.toNat, fun _ => rfl⟩
  | dump =>
    cases hr : dumpRange value with
    | error e => rw [hr] at h; cases h
    | ok range => exact ⟨_, .dump range, fun _ => rfl⟩

theorem Writes.comm {o o' : ValueOption} {f g : Settings → Settings} (hf : Writes o f)
    (hg : Writes o' g) (hne : o ≠ o') (s : Settings) : g (f s) = f (g s) := by
  cases hf <;> cases hg <;> first | exact absurd rfl hne | rfl

/-- An option leaves the input alone. -/
theorem Writes.keeps_input {o : ValueOption} {f : Settings → Settings} (hf : Writes o f)
    (s : Settings) (input : Option String) :
    (f s).input = s.input ∧ f { s with input } = { f s with input } := by
  cases hf <;> exact ⟨rfl, rfl⟩

theorem take_input_ok {path : String} :
    s.take (.input path) = .ok s' ↔
      path.toList.head? ≠ some '-' ∧ s.input = none ∧ s' = { s with input := some path } := by
  dsimp only [take]
  split
  · rename_i hdash
    exact ⟨nofun, fun h => absurd hdash h.1⟩
  · rename_i hdash
    cases hinput : s.input with
    | some path' => exact ⟨nofun, fun h => nomatch h.2.1⟩
    | none =>
      constructor
      · intro h
        cases h
        exact ⟨hdash, rfl, rfl⟩
      · rintro ⟨-, -, rfl⟩
        rfl

/-- **Two parts that are not the same option can change places.** -/
theorem take_comm {p q : Part} {s₁ : Settings} (hne : ∀ o, p.option? = some o → q.option? ≠ some o)
    (hp : s.take p = .ok s₁) (hq : s₁.take q = .ok s') :
    ∃ s₂, s.take q = .ok s₂ ∧ s₂.take p = .ok s' := by
  cases p with
  | option o value =>
    obtain ⟨f, hf, hset⟩ := exists_writes hp
    cases (hset s).symm.trans hp
    cases q with
    | option o' value' =>
      obtain ⟨g, hg, hset'⟩ := exists_writes hq
      cases (hset' (f s)).symm.trans hq
      have hoo' : o ≠ o' := fun e => hne o rfl (congrArg some e.symm)
      refine ⟨g s, hset' s, ?_⟩
      rw [hf.comm hg hoo']
      exact hset (g s)
    | input path =>
      obtain ⟨hdash, hnone, rfl⟩ := take_input_ok.mp hq
      obtain ⟨hkept, hover⟩ := hf.keeps_input s (some path)
      rw [hkept] at hnone
      refine ⟨_, take_input_ok.mpr ⟨hdash, hnone, rfl⟩, ?_⟩
      rw [← hover]
      exact hset _
  | input path =>
    obtain ⟨hdash, hnone, rfl⟩ := take_input_ok.mp hp
    cases q with
    | option o value =>
      obtain ⟨f, hf, hset⟩ := exists_writes hq
      cases (hset { s with input := some path }).symm.trans hq
      obtain ⟨hkept, hover⟩ := hf.keeps_input s (some path)
      refine ⟨f s, hset s, take_input_ok.mpr ⟨hdash, hkept.trans hnone, hover⟩⟩
    | input path' =>
      -- a second input is refused
      obtain ⟨-, hnone', -⟩ := take_input_ok.mp hq
      cases hnone'

/-- **Parts of distinct options may be taken in any order.** -/
theorem takeAll_perm (h : parts.Perm parts') (hnodup : (parts.filterMap Part.option?).Nodup)
    (htake : s.takeAll parts = .ok s') : s.takeAll parts' = .ok s' := by
  induction h generalizing s with
  | nil => exact htake
  | cons part _ ih =>
    obtain ⟨s₁, hpart, hrest⟩ := takeAll_cons_ok.mp htake
    have hfew := hnodup.sublist ((List.sublist_cons_self part _).filterMap _)
    exact takeAll_cons_ok.mpr ⟨s₁, hpart, ih hfew hrest⟩
  | swap q p parts =>
    obtain ⟨s₁, hp, hrest⟩ := takeAll_cons_ok.mp htake
    obtain ⟨s₂, hq, hrest⟩ := takeAll_cons_ok.mp hrest
    have hne : ∀ o, p.option? = some o → q.option? ≠ some o := by
      intro o ho ho'
      rw [List.filterMap_cons_some ho, List.filterMap_cons_some ho'] at hnodup
      exact (List.nodup_cons.mp hnodup).1 List.mem_cons_self
    obtain ⟨s₃, hq', hp'⟩ := take_comm hne hp hq
    exact takeAll_cons_ok.mpr ⟨s₃, hq', takeAll_cons_ok.mpr ⟨s₂, hp', hrest⟩⟩
  | trans h₁ _ ih₁ ih₂ =>
    have hnodup' := ((h₁.filterMap Part.option?).nodup_iff).mp hnodup
    exact ih₂ hnodup' (ih₁ hnodup htake)

/-- A part adds its input to the inputs there were. -/
theorem inputs_of_take {p : Part} (h : s.take p = .ok s') :
    s.input.toList ++ p.input?.toList = s'.input.toList := by
  cases p with
  | option o value =>
    obtain ⟨f, hf, hset⟩ := exists_writes h
    cases (hset s).symm.trans h
    rw [(hf.keeps_input s none).1]
    exact List.append_nil _
  | input path =>
    obtain ⟨-, hnone, rfl⟩ := take_input_ok.mp h
    rw [hnone]
    rfl

theorem inputs_of_takeAll (h : s.takeAll parts = .ok s') :
    s.input.toList ++ parts.filterMap Part.input? = s'.input.toList := by
  induction parts generalizing s with
  | nil =>
    cases h
    exact List.append_nil _
  | cons part parts ih =>
    obtain ⟨s₁, hpart, hrest⟩ := takeAll_cons_ok.mp h
    have hcons : (part :: parts).filterMap Part.input? =
        part.input?.toList ++ parts.filterMap Part.input? := by
      rw [List.filterMap_cons]
      cases part.input? <;> rfl
    rw [hcons, ← List.append_assoc, inputs_of_take hpart]
    exact ih hrest

end Settings

/-! ## 6. Commands with parts -/

/-- The options that may follow a command. -/
def optionsOf (word : String) : List ValueOption :=
  if word = "run" then [.address, .maxSteps, .dump]
  else if word = "disasm" then [.address]
  else []

/-- What a command makes of settings. -/
def commandOf (word : String) (s : Settings) : Except ArgumentError Command :=
  match s.input with
  | none => .error .missingInput
  | some input =>
    if word = "run" then
      .ok (.run { input, address := s.address, maxSteps := s.maxSteps, dump := s.dump })
    else .ok (.list { input, address := s.address })

section Words

variable {word : String} {rest : List String} {c : Command}

/-- Of its arguments a command sees the settings only. -/
theorem command_parse_eq (hword : word = "run" ∨ word = "disasm") (rest : List String) :
    Command.parse (word :: rest) =
      (Settings.parse (optionsOf word) .initial rest).bind (commandOf word) := by
  rcases hword with rfl | rfl
  · show (RunOptions.parse rest).map Command.run =
      (Settings.parse [.address, .maxSteps, .dump] .initial rest).bind (commandOf "run")
    rw [RunOptions.parse]
    cases Settings.parse [.address, .maxSteps, .dump] .initial rest with
    | error e => rfl
    | ok s => rcases s with ⟨_ | input, address, maxSteps, dump⟩ <;> rfl
  · show (ListOptions.parse rest).map Command.list =
      (Settings.parse [.address] .initial rest).bind (commandOf "disasm")
    rw [ListOptions.parse]
    cases Settings.parse [.address] .initial rest with
    | error e => rfl
    | ok s => rcases s with ⟨_ | input, address, maxSteps, dump⟩ <;> rfl

/-- An accepted command has settings with an input. -/
theorem settings_of_parse (hword : word = "run" ∨ word = "disasm")
    (h : Command.parse (word :: rest) = .ok c) :
    ∃ s path, Settings.parse (optionsOf word) .initial rest = .ok s ∧ s.input = some path ∧
      commandOf word s = .ok c := by
  rw [command_parse_eq hword] at h
  cases hs : Settings.parse (optionsOf word) .initial rest with
  | error e => rw [hs] at h; cases h
  | ok s =>
    rw [hs] at h
    cases hpath : s.input with
    | some path => exact ⟨s, path, rfl, hpath, h⟩
    | none =>
      have hmissing : commandOf word s = .error .missingInput := by rw [commandOf, hpath]
      cases hmissing.symm.trans h

/-- The parts of an accepted command give its arguments back, and one of them is the input. -/
theorem parts_of_command (hword : word = "run" ∨ word = "disasm")
    (h : Command.parse (word :: rest) = .ok c) :
    (Part.divide (optionsOf word) rest).flatMap Part.arguments = rest ∧
      ∃ path, (Part.divide (optionsOf word) rest).filterMap Part.input? = [path] := by
  obtain ⟨s, path, hs, hpath, -⟩ := settings_of_parse hword h
  refine ⟨(Settings.parts_of_parse hs).1, path, ?_⟩
  have hinputs := Settings.inputs_of_takeAll (Settings.takeAll_divide hs)
  rw [hpath] at hinputs
  exact hinputs

/-- **The parts of a command may stand in any order.** -/
theorem command_parse_perm (hword : word = "run" ∨ word = "disasm")
    (h : Command.parse (word :: rest) = .ok c)
    (hnodup : ((Part.divide (optionsOf word) rest).filterMap Part.option?).Nodup)
    {parts : List Part} (hperm : parts.Perm (Part.divide (optionsOf word) rest)) :
    Command.parse (word :: parts.flatMap Part.arguments) = .ok c := by
  obtain ⟨s, -, hs, -, hc⟩ := settings_of_parse hword h
  have hfits : ∀ p ∈ parts, p.Fits (optionsOf word) :=
    fun p hp => (Settings.parts_of_parse hs).2 p (hperm.mem_iff.mp hp)
  rw [command_parse_eq hword, Settings.parse_arguments hfits,
    Settings.takeAll_perm hperm.symm hnodup (Settings.takeAll_divide hs)]
  exact hc

end Words

/-- Arguments are their plain ones and their logging options. -/
theorem plain_append_logging_perm (args : List String) : (plain args ++ logging args).Perm args := by
  have h := List.filter_append_perm (fun arg => decide (arg ∉ loggingOptions)) args
  simp only [decide_not, Bool.not_not] at h
  simpa only [plain, logging, decide_not] using h

namespace Invocation

/-- **Where an option stands makes no difference.** A plea for help anywhere is heard. Logging
options put anywhere between arguments, be it between an option and its value, leave the command as
it was and raise the level to theirs. The parts of a run or of a listing, of which one is the input,
may be permuted when no option is given twice. -/
theorem parse_anywhere (args : List String) :
    ((∃ arg ∈ args, arg = "-h" ∨ arg = "--help") → Invocation.parse args = .ok .help) ∧
    ∀ c level, Invocation.parse args = .ok (.command c level) →
      (∀ more args', Inserted more args args' → (∀ arg ∈ more, arg ∈ loggingOptions) →
        Invocation.parse args' =
          .ok (.command c ((more.map requestedLevel).foldl LogLevel.max level))) ∧
      ∀ word rest, plain args = word :: rest → word = "run" ∨ word = "disasm" →
        let parts := Part.divide (optionsOf word) rest
        parts.flatMap Part.arguments = rest ∧
        (∃ path, parts.filterMap Part.input? = [path]) ∧
        ((parts.filterMap Part.option?).Nodup →
          ∀ (parts' : List Part) (args' : List String), parts'.Perm parts →
            plain args' = word :: parts'.flatMap Part.arguments →
            (logging args').Perm (logging args) →
            Invocation.parse args' = .ok (.command c level)) := by
  refine ⟨parse_of_help, fun c level hparse => ?_⟩
  obtain ⟨hhelp, hcommand, rfl⟩ := parse_eq_command_iff.mp hparse
  constructor
  · intro more args' hinserted hmore
    refine parse_eq_command_iff.mpr ⟨?_, ?_, ?_⟩
    · rw [hinserted.asksForHelp_eq hmore, hhelp]
    · rw [hinserted.plain_eq hmore, hcommand]
    · rw [hinserted.levelOf_eq hmore]
  · intro word rest hplain hword
    rw [hplain] at hcommand
    obtain ⟨hargs, hinput⟩ := parts_of_command hword hcommand
    refine ⟨hargs, hinput, fun hnodup parts' args' hperm hplain' hlogging => ?_⟩
    -- the arguments are the same ones in another order, so none of them asks for help
    have hplains : (plain args').Perm (plain args) := by
      rw [hplain', hplain]
      conv => rhs; rw [← hargs]
      exact (hperm.flatMap_right Part.arguments).cons word
    have hall : args'.Perm args :=
      (plain_append_logging_perm args').symm.trans
        ((hplains.append hlogging).trans (plain_append_logging_perm args))
    refine parse_eq_command_iff.mpr ⟨?_, ?_, ?_⟩
    · rw [hall.any_eq, hhelp]
    · rw [hplain']
      exact command_parse_perm hword hcommand hnodup hperm
    · exact foldl_max_perm (hlogging.symm.map requestedLevel) .info

/-- A run with its options before the input and in the other order, and a log between an option and
its value. -/
theorem parse_anywhere_run :
    let c := Command.run
      { input := "a.bin", address := 0x400, maxSteps := none, dump := some (0x2000, 16) }
    Invocation.parse ["run", "a.bin", "--address", "$400", "--dump", "0x2000:16"] =
        .ok (.command c .info) ∧
      Invocation.parse ["run", "-v", "a.bin", "--address", "--trace", "$400", "--dump", "0x2000:16"] =
        .ok (.command c .trace) ∧
      Invocation.parse ["run", "--dump", "0x2000:16", "--address", "$400", "a.bin"] =
        .ok (.command c .info) ∧
      Invocation.parse ["run", "--address", "-h"] = .ok .help := by
  intro c
  let args := ["run", "a.bin", "--address", "$400", "--dump", "0x2000:16"]
  have hparse : Invocation.parse args = .ok (.command c .info) := by decide +kernel
  obtain ⟨hinsert, hpermute⟩ := (parse_anywhere args).2 c .info hparse
  refine ⟨hparse, ?_, ?_, ?_⟩
  · refine hinsert ["-v", "--trace"] _ ?_ (by decide)
    exact .keep _ (.insert _ (.keep _ (.keep _ (.insert _ (.keep _ (.keep _ (.keep _ .nil)))))))
  · obtain ⟨-, -, hall⟩ := hpermute "run"
      ["a.bin", "--address", "$400", "--dump", "0x2000:16"] (by decide) (.inl rfl)
    exact hall (by decide)
      [.option .dump "0x2000:16", .option .address "$400", .input "a.bin"] _ (by decide) (by decide)
      (by decide)
  · exact (parse_anywhere _).1 ⟨"-h", by decide, .inl rfl⟩

end Invocation

end Mc68000.CommandLine
