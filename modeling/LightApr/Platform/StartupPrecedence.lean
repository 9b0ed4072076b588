import LightApr.Core.CliPrecedence
import LightApr.Platform.Startup

/-! Which source of an option wins in the end: the flags, the environment, or the configuration file. -/
namespace LightApr.Platform.Startup
open LightApr.Core CliOptions

/-- The variable with the thread count that `main` looks at. -/
def threadsVariable (env : Env) : Option Bytes := (env (ascii "WORKER_THREADS")).or (env (ascii "THREADS"))

/-- A field with a flag has the value of its last one. -/
def FlagsKept (args : List Bytes) (opts : CliOptions) : Prop :=
  ∀ (f : Field) value, given (.field f) args = some value → f.ofFlag value = some (f.get opts)

/-- The environment says nothing else about the fields for which there is a flag. -/
structure Silent (env : Env) (args : List Bytes) : Prop where
  cellId : ∀ value, given (.field .cellId) args = some value → ∀ cell, env (ascii "CELL_ID") = some cell → cell = value
  accessKey : ∀ value, given (.field .accessKey) args = some value →
    ∀ key, env (ascii "ACCESS_KEY") = some key → key = value
  threads : ∀ value, given (.field .threads) args = some value → stoul value = some 0 →
    ∀ count, threadsVariable env = some count → stoul count = some 0

section
variable {env : Env} {files : ConfigFiles} {argv args : List Bytes} {opts parsed : CliOptions} {shell : Shell}
  {user : Env} {f : Field} {word value : Bytes}

/-- What `main` changes of what was parsed. -/
structure Overridden (env : Env) (parsed opts : CliOptions) : Prop where
  cellId : opts.cellId = (env (ascii "CELL_ID")).getD parsed.cellId
  accessKey : opts.accessKey = (env (ascii "ACCESS_KEY")).getD parsed.accessKey
  threads : parsed.threads ≠ 0 → opts.threads = parsed.threads
  noThreads : parsed.threads = 0 → threadsVariable env = none → opts.threads = 0
  envThreads : parsed.threads = 0 → ∀ count, threadsVariable env = some count → stoul count = some opts.threads
  same : ∀ f : Field, f ≠ .cellId → f ≠ .accessKey → f ≠ .threads → f.get opts = f.get parsed

/-- The two variables that always win. -/
def withKeys (env : Env) (parsed : CliOptions) : CliOptions :=
  { parsed with
    cellId := (env (ascii "CELL_ID")).getD parsed.cellId
    accessKey := (env (ascii "ACCESS_KEY")).getD parsed.accessKey }

theorem options_eq (env : Env) (files : ConfigFiles) (argv : List Bytes) :
    options env files argv = (parse files argv).bind fun parsed =>
      if parsed.threads = 0 then
        match threadsVariable env with
        | some count => (stoul count).map fun n => { withKeys env parsed with threads := n }
        | none => some (withKeys env parsed)
      else some (withKeys env parsed) := by
  rw [options]
  refine Option.bind_congr fun parsed _ => ?_
  rw [withKeys, threadsVariable]
  cases env (ascii "CELL_ID") <;> cases env (ascii "ACCESS_KEY") <;> cases env (ascii "WORKER_THREADS") <;> rfl

theorem options_cases (h : options env files argv = some opts) :
    ∃ parsed, parse files argv = some parsed ∧ Overridden env parsed opts := by
  rw [options_eq] at h
  obtain ⟨parsed, hparsed, h⟩ := Option.bind_eq_some_iff.mp h
  refine ⟨parsed, hparsed, ?_⟩
  have hsame : ∀ f : Field, f ≠ .cellId → f ≠ .accessKey → f ≠ .threads → ∀ n,
      f.get { withKeys env parsed with threads := n } = f.get parsed := by
    intro f hcell hkey hthreads n
    cases f <;> first | rfl | contradiction
  by_cases hzero : parsed.threads = 0
  · rw [if_pos hzero] at h
    cases hvar : threadsVariable env with
    | none =>
      rw [hvar] at h
      obtain rfl := Option.some.inj h
      exact ⟨rfl, rfl, fun hne => absurd hzero hne, fun _ _ => hzero, fun _ _ he => (nomatch hvar.symm.trans he),
        fun f h1 h2 h3 => hsame f h1 h2 h3 _⟩
    | some count =>
      rw [hvar] at h
      obtain ⟨n, hn, rfl⟩ := Option.map_eq_some_iff.mp h
      refine ⟨rfl, rfl, fun hne => absurd hzero hne, fun _ he => (nomatch hvar.symm.trans he), fun _ c he => ?_,
        fun f h1 h2 h3 => hsame f h1 h2 h3 n⟩
      obtain rfl := Option.some.inj (hvar.symm.trans he)
      exact hn
  · rw [if_neg hzero] at h
    obtain rfl := Option.some.inj h
    exact ⟨rfl, rfl, fun _ => rfl, fun he => absurd he hzero, fun he => absurd he hzero,
      fun f h1 h2 h3 => hsame f h1 h2 h3 _⟩

/-- A flag's value is what was parsed. -/
theorem get_of_given (h : parse files argv = some parsed) (hgiven : given (.field f) (argv.drop 1) = some value) :
    f.ofFlag value = some (f.get parsed) := by
  have hreads : (f.ofFlag value).isSome = true :=
    (parse_isSome_iff files argv).mp (Option.isSome_of_eq_some h) _ (mem_tokens_of_given hgiven)
  obtain ⟨v, hv⟩ := Option.isSome_iff_exists.mp hreads
  rw [get_parse h f, hgiven, Option.bind_some, hv]
  rfl

theorem eq_getD {env : Option Bytes} {x : Bytes} (hx : value = x) (henv : ∀ e, env = some e → e = value) :
    value = env.getD x := by
  cases env with
  | none => exact hx
  | some e => exact (henv e rfl).symm

theorem flags_kept_iff (h : options env files argv = some opts) :
    FlagsKept (argv.drop 1) opts ↔ Silent env (argv.drop 1) := by
  obtain ⟨parsed, hparsed, ho⟩ := options_cases h
  constructor
  · intro hkept
    refine ⟨fun value hvalue cell hcell => ?_, fun value hvalue key hkey => ?_,
      fun value hvalue hzero count hcount => ?_⟩
    · have he : value = opts.cellId := Option.some.inj (hkept .cellId value hvalue)
      rw [he, ho.cellId, hcell, Option.getD_some]
    · have he : value = opts.accessKey := Option.some.inj (hkept .accessKey value hvalue)
      rw [he, ho.accessKey, hkey, Option.getD_some]
    · have hread : stoul value = some parsed.threads := get_of_given hparsed hvalue
      have hparsed0 : parsed.threads = 0 := Option.some.inj (hread.symm.trans hzero)
      have hopts0 : opts.threads = 0 := Option.some.inj ((hkept .threads value hvalue).symm.trans hzero)
      rw [ho.envThreads hparsed0 count hcount, hopts0]
  · intro hs f value hvalue
    have hread := get_of_given hparsed hvalue
    by_cases hcell : f = .cellId
    · subst hcell
      have he : value = parsed.cellId := Option.some.inj hread
      exact congrArg some ((eq_getD he (hs.cellId value hvalue)).trans ho.cellId.symm)
    by_cases hkey : f = .accessKey
    · subst hkey
      have he : value = parsed.accessKey := Option.some.inj hread
      exact congrArg some ((eq_getD he (hs.accessKey value hvalue)).trans ho.accessKey.symm)
    by_cases hthreads : f = .threads
    · subst hthreads
      have hread : stoul value = some parsed.threads := hread
      change stoul value = some opts.threads
      by_cases hzero : parsed.threads = 0
      · cases hvar : threadsVariable env with
        | none => rw [hread, hzero, ho.noThreads hzero hvar]
        | some count =>
          have hcount := hs.threads value hvalue (hzero ▸ hread) count hvar
          rw [hread, hzero, ← hcount, ho.envThreads hzero count hvar]
      · rw [hread, ho.threads hzero]
    · rw [hread, ho.same f hcell hkey hthreads]

/-! In the container. -/

/-- A field for which the user set no variable and gave no flag has the value of the configuration file, if that has
one. -/
def FileTaken (file : Option Json) (user : Env) (args : List Bytes) (opts : CliOptions) : Prop :=
  ∀ f : Field, user (variableOf f) = none → given (.field f) args = none →
    ∀ v, file.bind f.ofConfig = some v → f.get opts = v

/-- What the command line says about the field is what the file says; the environment has the last word on two. -/
def LineAgrees (line : List Bytes) (f : Field) (v : f.Value) : Prop :=
  if f = .cellId ∨ f = .accessKey then f.ofFlag (defaultOf f) = some v
  else ∀ value, given (.field f) line = some value → f.ofFlag value = some v

theorem nodup_fields : fields.Nodup := by decide

theorem mem_fields (f : Field) : f ∈ fields := by
  cases f <;> decide

/-- A fact about the table of the fields, checked field by field. -/
theorem of_fields {p : Field → Prop} (h : ∀ f ∈ fields, p f) (f : Field) : p f := h f (mem_fields f)

theorem find_variable (f : Field) : fields.find? (fun g => variableOf g = variableOf f) = some f :=
  of_fields (p := fun f => fields.find? (fun g => variableOf g = variableOf f) = some f) (by decide +kernel) f

theorem imageEnv_variableOf (f : Field) : imageEnv (variableOf f) = some (defaultOf f) := by
  have hname : variableOf f ≠ ascii "CONFIG_FILE" :=
    of_fields (p := fun f => variableOf f ≠ ascii "CONFIG_FILE") (by decide +kernel) f
  rw [imageEnv, if_neg hname, find_variable]
  rfl

theorem container_unset (h : user (variableOf f) = none) : container user (variableOf f) = some (defaultOf f) := by
  rw [container, h, Option.none_or, imageEnv_variableOf]

theorem setting_unset (h : user (variableOf f) = none) : setting (container user) f = defaultOf f := by
  rw [setting, valueOr, container_unset h]
  cases f <;> rfl

theorem exported_unset (h : user (variableOf f) = none) :
    exported (container user) (variableOf f) = some (defaultOf f) := by
  rw [exported, find_variable]
  dsimp only
  rw [container_unset h, setting_unset h]
  rfl

/-- In the container `main` leaves what was parsed of a field without a variable, up to the two that always win. -/
theorem get_unset (ho : Overridden (exported (container user)) parsed opts) (hunset : user (variableOf f) = none)
    (hcell : f ≠ .cellId) (hkey : f ≠ .accessKey) : f.get opts = f.get parsed := by
  by_cases hthreads : f = .threads
  · subst hthreads
    have hvar : threadsVariable (exported (container user)) = some (ascii "0") := by
      have hset := exported_unset hunset
      rw [threadsVariable]
      exact congrArg (fun o : Option Bytes => o.or _) hset
    by_cases hzero : parsed.threads = 0
    · have hread : some 0 = some opts.threads := ho.envThreads hzero _ hvar
      exact (Option.some.inj hread).symm.trans hzero.symm
    · exact ho.threads hzero
  · exact ho.same f hcell hkey hthreads

theorem get_eq_iff (h : parse files argv = some parsed) {v : f.Value}
    (hv : (configured files (argv.drop 1)).bind f.ofConfig = some v) :
    f.get parsed = v ↔ ∀ value, given (.field f) (argv.drop 1) = some value → f.ofFlag value = some v := by
  cases hgiven : given (.field f) (argv.drop 1) with
  | none =>
    refine iff_of_true ?_ nofun
    rw [get_parse h f, hgiven, hv]
    rfl
  | some value =>
    have hread := get_of_given h hgiven
    constructor
    · rintro hget value' hvalue
      obtain rfl := Option.some.inj hvalue
      rw [hread, hget]
    · exact fun hall => Option.some.inj (hread.symm.trans (hall value rfl))

theorem file_taken_iff (h : containerOptions shell files user args = some opts) :
    FileTaken (configured files ((commandLine shell (container user) args).drop 1)) user args opts ↔
      ∀ f : Field, user (variableOf f) = none → given (.field f) args = none →
        ∀ v, (configured files ((commandLine shell (container user) args).drop 1)).bind f.ofConfig = some v →
          LineAgrees ((commandLine shell (container user) args).drop 1) f v := by
  obtain ⟨parsed, hparsed, ho⟩ := options_cases h
  refine forall_congr' fun f => forall_congr' fun hunset => forall_congr' fun _ => forall_congr' fun v =>
    forall_congr' fun hv => ?_
  by_cases hcell : f = .cellId
  · subst hcell
    rw [LineAgrees, if_pos (.inl rfl)]
    have hfinal : opts.cellId = defaultOf .cellId :=
      ho.cellId.trans (congrArg (Option.getD · _) (exported_unset hunset))
    exact ⟨fun hget => congrArg some (hfinal.symm.trans hget), fun he => hfinal.trans (Option.some.inj he)⟩
  by_cases hkey : f = .accessKey
  · subst hkey
    rw [LineAgrees, if_pos (.inr rfl)]
    have hfinal : opts.accessKey = defaultOf .accessKey :=
      ho.accessKey.trans (congrArg (Option.getD · _) (exported_unset hunset))
    exact ⟨fun hget => congrArg some (hfinal.symm.trans hget), fun he => hfinal.trans (Option.some.inj he)⟩
  · rw [LineAgrees, if_neg (not_or.mpr ⟨hcell, hkey⟩), get_unset ho hunset hcell hkey]
    exact get_eq_iff hparsed hv

/-! The words of the command line, where each value is one word. -/

/-- No blank that would split the value, and no pattern. -/
def Plain (value : Bytes) : Prop := (∀ b ∈ value, isIfs b = false) ∧ Literal value

/-- `Plain` as a test of one byte after the other. -/
theorem plain_of_all {value : Bytes} (h : value.all (fun b => !isIfs b && !(ascii "*?[\\").contains b) = true) :
    Plain value := by
  have hbyte : ∀ b ∈ value, isIfs b = false ∧ b ∉ ascii "*?[\\" := by
    intro b hb
    simpa using List.all_eq_true.mp h b hb
  exact ⟨fun b hb => (hbyte b hb).1, fun b hb => (hbyte b hb).2⟩

/-- The value that comes with the field's flag; none: the script passes no such flag. -/
def passed (shell : Shell) (f : Field) (value : Bytes) : Option Bytes :=
  match f with
  | .standalone | .monitorEnabled | .testerEnabled =>
    if value = ascii "true" ∨ value = ascii "1" then some [] else none
  | .threads => if value ≠ [] ∧ shell.positive value = true then some value else none
  | _ => if value ≠ [] then some value else none

theorem fieldSplit_append (xs ys : Bytes) : fieldSplit (xs ++ 32 :: ys) = fieldSplit xs ++ fieldSplit ys := by
  rw [fieldSplit, List.splitOnP_append_cons xs ys (by decide), List.filter_append, ← fieldSplit, ← fieldSplit]

theorem fieldSplit_word (hword : ∀ b ∈ word, isIfs b = false) (hne : word ≠ []) : fieldSplit word = [word] := by
  rw [fieldSplit, List.splitOnP_eq_singleton hword]
  exact List.filter_cons_of_pos (decide_eq_true hne)

/-- The words of one argument. -/
def wordsOf (shell : Shell) (f : Field) (value : Bytes) : List Bytes :=
  match passed shell f value with
  | none => []
  | some v => if (Flag.field f).takesValue then [longFlag f, v] else [longFlag f]

theorem argument_eq (shell : Shell) (f : Field) (value : Bytes) :
    argument shell f value = match passed shell f value with
      | none => []
      | some v => if (Flag.field f).takesValue then 32 :: (longFlag f ++ 32 :: v) else 32 :: longFlag f := by
  cases f <;> simp only [argument, passed] <;> split <;> rfl

theorem passed_value {v : Bytes} (h : passed shell f value = some v) (htakes : (Flag.field f).takesValue = true) :
    v = value ∧ value ≠ [] := by
  cases f <;> simp only [passed, Option.ite_none_right_eq_some, Option.some.injEq] at h
  case standalone | monitorEnabled | testerEnabled => cases htakes
  case threads => exact ⟨h.2.symm, h.1.1⟩
  all_goals exact ⟨h.2.symm, h.1⟩

theorem plain_longFlag (f : Field) : Plain (longFlag f) ∧ longFlag f ≠ [] := by
  obtain ⟨hall, hne⟩ := of_fields (p := fun f => (longFlag f).all (fun b => !isIfs b && !(ascii "*?[\\").contains b) =
    true ∧ longFlag f ≠ []) (by decide +kernel) f
  exact ⟨plain_of_all hall, hne⟩

theorem fieldSplit_argument (shell : Shell) (f : Field) (hplain : Plain value) (xs : Bytes) :
    fieldSplit (xs ++ argument shell f value) = fieldSplit xs ++ wordsOf shell f value := by
  obtain ⟨⟨hword, -⟩, hne⟩ := plain_longFlag f
  rw [argument_eq, wordsOf]
  cases hpassed : passed shell f value with
  | none => simp
  | some v =>
    dsimp only
    split
    · rename_i htakes
      obtain ⟨rfl, hvalue⟩ := passed_value hpassed htakes
      rw [fieldSplit_append, fieldSplit_append, fieldSplit_word hword hne, fieldSplit_word hplain.1 hvalue]
      rfl
    · rw [fieldSplit_append, fieldSplit_word hword hne]

theorem fieldSplit_arguments (shell : Shell) {env : Env} (hplain : ∀ f, Plain (setting env f)) (fs : List Field)
    (xs : Bytes) : fieldSplit (xs ++ (fs.map fun f => argument shell f (setting env f)).flatten) =
      fieldSplit xs ++ fs.flatMap fun f => wordsOf shell f (setting env f) := by
  induction fs generalizing xs with
  | nil => simp
  | cons f fs ih =>
    rw [List.map_cons, List.flatten_cons, ← List.append_assoc, ih, fieldSplit_argument shell f (hplain f),
      List.flatMap_cons, List.append_assoc]

/-- The path of the configuration file, where the script passes one. -/
def passedConfig (env : Env) : Option Bytes := if configFile env ≠ [] then some (configFile env) else none

theorem fieldSplit_config {env : Env} (hplain : Plain (configFile env)) : fieldSplit (configArgument (configFile env)) =
    match passedConfig env with
    | none => []
    | some path => [ascii "--config", path] := by
  rw [configArgument, passedConfig]
  by_cases hpath : configFile env = []
  · rw [if_neg (not_not_intro hpath), if_neg (not_not_intro hpath)]
    rfl
  · rw [if_pos hpath, if_pos hpath]
    have htext : ascii " --config " ++ configFile env = [] ++ 32 :: (ascii "--config" ++ 32 :: configFile env) := rfl
    rw [htext, fieldSplit_append, fieldSplit_append, fieldSplit_word hplain.1 hpath]
    rfl

theorem expand_words {words : List Bytes} (h : ∀ word ∈ words, Literal word) : words.flatMap shell.expand = words := by
  induction words with
  | nil => rfl
  | cons word words ih =>
    obtain ⟨hword, hwords⟩ := List.forall_mem_cons.mp h
    rw [List.flatMap_cons, shell.expand_literal word hword, ih hwords]
    rfl

theorem literal_nil : Literal [] := fun _ hb => nomatch hb

theorem literal_wordsOf (hplain : Plain value) : ∀ word ∈ wordsOf shell f value, Literal word := by
  rw [wordsOf]
  cases hpassed : passed shell f value with
  | none => exact nofun
  | some v =>
    dsimp only
    split
    · rename_i htakes
      obtain ⟨rfl, -⟩ := passed_value hpassed htakes
      simp [(plain_longFlag f).1.2, hplain.2]
    · simp [(plain_longFlag f).1.2]

/-- Every value is one word. -/
structure PlainEnv (env : Env) : Prop where
  config : Plain (configFile env)
  setting : ∀ f, Plain (setting env f)

/-- The words that `ARGS` comes to. -/
def scriptWords (shell : Shell) (env : Env) : List Bytes :=
  ((passedConfig env).elim [] fun path => [ascii "--config", path]) ++
    fields.flatMap fun f => wordsOf shell f (setting env f)

theorem commandLine_plain {env : Env} (h : PlainEnv env) (args : List Bytes) :
    (commandLine shell env args).drop 1 = scriptWords shell env ++ args := by
  have hsplit : fieldSplit (arguments shell env) = scriptWords shell env := by
    rw [arguments, fieldSplit_arguments shell h.setting, fieldSplit_config h.config, scriptWords]
    cases passedConfig env <;> rfl
  have hliteral : ∀ word ∈ scriptWords shell env, Literal word := by
    intro word hword
    rcases List.mem_append.mp hword with hword | hword
    · rw [passedConfig] at hword
      split at hword
      · rcases List.mem_cons.mp hword with rfl | hword
        · exact (plain_of_all (by decide +kernel)).2
        · obtain rfl := List.mem_singleton.mp hword
          exact h.config.2
      · cases hword
    · obtain ⟨f, -, hword⟩ := List.mem_flatMap.mp hword
      exact literal_wordsOf (h.setting f) word hword
  rw [commandLine, List.drop_succ_cons, List.drop_zero, hsplit, expand_words hliteral]

theorem ofArg_longFlag (f : Field) : Flag.ofArg (longFlag f) = some (.field f) :=
  of_fields (p := fun f => Flag.ofArg (longFlag f) = some (.field f)) (by decide +kernel) f

theorem passed_switch {v : Bytes} (h : passed shell f value = some v) (htakes : (Flag.field f).takesValue ≠ true) :
    v = [] := by
  cases f <;> simp only [passed, Option.ite_none_right_eq_some, Option.some.injEq] at h
  case standalone | monitorEnabled | testerEnabled => exact h.2.symm
  all_goals exact absurd rfl htakes

/-- The flag that comes for a field. -/
def tokenOf (shell : Shell) (env : Env) (f : Field) : List (Flag × Bytes) :=
  ((passed shell f (setting env f)).map fun v => (Flag.field f, v)).toList

theorem tokens_wordsOf (shell : Shell) (env : Env) (f : Field) (rest : List Bytes) :
    tokens (wordsOf shell f (setting env f) ++ rest) = tokenOf shell env f ++ tokens rest := by
  rw [wordsOf, tokenOf]
  cases hpassed : passed shell f (setting env f) with
  | none => rfl
  | some v =>
    dsimp only
    split
    · rename_i htakes
      simp only [List.cons_append, List.nil_append, tokens, ofArg_longFlag, htakes, if_true]
      rfl
    · rename_i htakes
      obtain rfl := passed_switch hpassed htakes
      simp only [List.cons_append, List.nil_append, tokens, ofArg_longFlag]
      rw [if_neg htakes]
      rfl

theorem tokens_scriptWords (shell : Shell) (env : Env) (args : List Bytes) :
    tokens (scriptWords shell env ++ args) = ((passedConfig env).map fun path => (Flag.config, path)).toList ++
      (fields.flatMap (tokenOf shell env) ++ tokens args) := by
  have hfields : ∀ fs : List Field, tokens ((fs.flatMap fun f => wordsOf shell f (setting env f)) ++ args) =
      fs.flatMap (tokenOf shell env) ++ tokens args := by
    intro fs
    induction fs with
    | nil => rfl
    | cons f fs ih =>
      rw [List.flatMap_cons, List.append_assoc, tokens_wordsOf, ih, List.flatMap_cons, List.append_assoc]
  rw [scriptWords, List.append_assoc, ← hfields]
  cases passedConfig env with
  | none => rfl
  | some path => exact tokens_config (.inr rfl) path _

theorem lookup_tokenOf (shell : Shell) (env : Env) (f : Field) {fs : List Field} (hnodup : fs.Nodup) :
    (fs.flatMap (tokenOf shell env)).reverse.lookup (.field f) =
      if f ∈ fs then passed shell f (setting env f) else none := by
  induction fs with
  | nil => rfl
  | cons g fs ih =>
    obtain ⟨hg, hnodup⟩ := List.nodup_cons.mp hnodup
    have hhead : (tokenOf shell env g).reverse.lookup (.field f) =
        if f = g then passed shell g (setting env g) else none := by
      rw [tokenOf]
      cases passed shell g (setting env g) with
      | none => simp
      | some v =>
        by_cases hfg : f = g
        · simp [hfg]
        · have hne : (Flag.field f == Flag.field g) = false := by simp [hfg]
          simp [List.lookup_cons, hne, hfg]
    rw [List.flatMap_cons, List.reverse_append, List.lookup_append, ih hnodup, hhead]
    by_cases hfg : f = g
    · subst hfg
      simp [hg]
    · simp [hfg]

theorem lookup_config_tokenOf (shell : Shell) (env : Env) (fs : List Field) :
    (fs.flatMap (tokenOf shell env)).reverse.lookup .config = none := by
  rw [List.lookup_eq_none_iff]
  intro token htoken
  obtain ⟨f, -, htoken⟩ := List.mem_flatMap.mp (List.mem_reverse.mp htoken)
  obtain ⟨v, -, rfl⟩ := Option.map_eq_some_iff.mp (Option.mem_toList.mp htoken)
  rfl

/-- The user's own arguments come last, and win over the script's. -/
theorem given_field_plain {env : Env} (h : PlainEnv env) (args : List Bytes) (f : Field) :
    given (.field f) ((commandLine shell env args).drop 1) =
      (given (.field f) args).or (passed shell f (setting env f)) := by
  have hconfig :
      (((passedConfig env).map fun path => (Flag.config, path)).toList.reverse).lookup (.field f) = none := by
    cases passedConfig env with
    | none => rfl
    | some path => rfl
  rw [commandLine_plain h, given, tokens_scriptWords, List.reverse_append, List.reverse_append, List.lookup_append,
    List.lookup_append, lookup_tokenOf shell env f nodup_fields, if_pos (mem_fields f), hconfig, Option.or_none,
    ← given]

theorem given_config_plain {env : Env} (h : PlainEnv env) (args : List Bytes) :
    given .config ((commandLine shell env args).drop 1) = (given .config args).or (passedConfig env) := by
  rw [commandLine_plain h, given, tokens_scriptWords, List.reverse_append, List.reverse_append, List.lookup_append,
    List.lookup_append, lookup_config_tokenOf, ← given, Option.or_none]
  cases passedConfig env <;> simp

/-- The user's variables, as far as they are set, are single words. -/
structure PlainUser (user : Env) : Prop where
  config : ∀ value, user (ascii "CONFIG_FILE") = some value → Plain value
  field : ∀ f value, user (variableOf f) = some value → Plain value

theorem plain_defaultOf (f : Field) : Plain (defaultOf f) :=
  plain_of_all (of_fields (p := fun f => (defaultOf f).all (fun b => !isIfs b && !(ascii "*?[\\").contains b) = true)
    (by decide +kernel) f)

theorem plain_valueOr {name fallback : Bytes} (hfallback : Plain fallback)
    (hset : ∀ value, env name = some value → Plain value) : Plain (valueOr env name fallback) := by
  rw [valueOr]
  split
  · rename_i hname
    exact hset _ hname
  · exact hfallback

theorem PlainUser.container (h : PlainUser user) : PlainEnv (container user) := by
  constructor
  · refine plain_valueOr ⟨nofun, literal_nil⟩ fun value hvalue => ?_
    rcases Option.or_eq_some_iff.mp hvalue with huser | ⟨-, himage⟩
    · exact h.config value huser
    · obtain rfl := Option.some.inj himage
      exact ⟨nofun, literal_nil⟩
  · intro f
    refine plain_valueOr (plain_defaultOf f) fun value hvalue => ?_
    rcases Option.or_eq_some_iff.mp hvalue with huser | ⟨-, himage⟩
    · exact h.field f value huser
    · obtain rfl := Option.some.inj ((imageEnv_variableOf f).symm.trans himage)
      exact plain_defaultOf f

/-- The configuration file that the user names, by a flag or by the variable. -/
def namedFile (files : ConfigFiles) (user : Env) (args : List Bytes) : Option Json :=
  ((given .config args).or ((user (ascii "CONFIG_FILE")).filter (· ≠ []))).bind fun path =>
    (files.read path).bind files.parse

theorem passedConfig_container (user : Env) :
    passedConfig (container user) = (user (ascii "CONFIG_FILE")).filter (· ≠ []) := by
  have himage : container user (ascii "CONFIG_FILE") = (user (ascii "CONFIG_FILE")).or (some []) := rfl
  rw [passedConfig, configFile, valueOr, himage]
  cases user (ascii "CONFIG_FILE") with
  | none => rfl
  | some path => cases path with
    | nil => rfl
    | cons b path => rfl

theorem configured_plain (h : PlainUser user) (args : List Bytes) :
    configured files ((commandLine shell (container user) args).drop 1) = namedFile files user args := by
  rw [configured, given_config_plain h.container, namedFile, passedConfig_container]

theorem passed_defaultOf (shell : Shell) (f : Field) : passed shell f (defaultOf f) =
    if f = .threads ∨ f = .monitorEnabled ∨ f = .testerEnabled then none
    else some (if (Flag.field f).takesValue then defaultOf f else []) := by
  cases f
  case threads => simp [passed, defaultOf, shell.positive_zero]
  all_goals rfl

/-- Of a field without a variable the command line says what the script has for a default. -/
theorem lineAgrees_plain (h : PlainUser user) (hunset : user (variableOf f) = none)
    (hno : given (.field f) args = none) (v : f.Value) :
    LineAgrees ((commandLine shell (container user) args).drop 1) f v ↔
      (f = .threads ∨ f = .monitorEnabled ∨ f = .testerEnabled) ∨ f.ofFlag (defaultOf f) = some v := by
  rw [LineAgrees, given_field_plain h.container, hno, Option.none_or, setting_unset hunset, passed_defaultOf]
  cases f <;> simp [Field.ofFlag, Flag.takesValue]

/-- **A flag keeps its value exactly if the environment says nothing else. In the container a field whose variable the
user left alone takes the value of the configuration file exactly if the command line agrees with it; where every
variable is one word, exactly if it is one of the three fields for which the script passes no default, or its default
is what the file says.** -/
theorem precedence_iff (files : ConfigFiles) :
    (∀ (env : Env) (argv : List Bytes) (opts : CliOptions), options env files argv = some opts →
      (FlagsKept (argv.drop 1) opts ↔ Silent env (argv.drop 1))) ∧
    ∀ (shell : Shell) (user : Env) (args : List Bytes) (opts : CliOptions),
      containerOptions shell files user args = some opts →
      (FileTaken (configured files ((commandLine shell (container user) args).drop 1)) user args opts ↔
        ∀ f : Field, user (variableOf f) = none → given (.field f) args = none →
          ∀ v, (configured files ((commandLine shell (container user) args).drop 1)).bind f.ofConfig = some v →
            LineAgrees ((commandLine shell (container user) args).drop 1) f v) ∧
      (PlainUser user → (FileTaken (namedFile files user args) user args opts ↔
        ∀ f : Field, user (variableOf f) = none → given (.field f) args = none →
          ∀ v, (namedFile files user args).bind f.ofConfig = some v →
            (f = .threads ∨ f = .monitorEnabled ∨ f = .testerEnabled) ∨ f.ofFlag (defaultOf f) = some v)) := by
  refine ⟨fun env argv opts h => flags_kept_iff h, fun shell user args opts h => ⟨file_taken_iff h, ?_⟩⟩
  intro hplain
  have hnamed : configured files ((commandLine shell (container user) args).drop 1) = namedFile files user args :=
    configured_plain hplain args
  rw [← hnamed, file_taken_iff h]
  refine forall_congr' fun f => forall_congr' fun hunset => forall_congr' fun hno => forall_congr' fun v =>
    forall_congr' fun _ => ?_
  exact lineAgrees_plain hplain hunset hno v

end

private def bareShell : Shell where
  expand word := [word]
  positive word := decide (0 < digitsValue word)
  expand_literal _ _ := rfl
  positive_zero := rfl

private def fileOf (fields : List (Bytes × Json)) : ConfigFiles where
  read path := if path = ascii "/c.json" then some (Json.obj fields).render else none
  parse _ := some (.obj fields)

private def monitorFile : ConfigFiles := fileOf [(ascii "monitor", .bool true)]

private def portFile : ConfigFiles := fileOf [(ascii "mqtt_port", .int 1990)]

private def namesFile : Env := fun name => if name = ascii "CONFIG_FILE" then some (ascii "/c.json") else none

private def green : Env := fun name => if name = ascii "CELL_ID" then some (ascii "green") else none

private def blue : List Bytes := [ascii "lightapr", ascii "--cell-id", ascii "blue"]

private theorem plain_namesFile : PlainUser namesFile := by
  constructor
  · intro value hvalue
    obtain rfl : ascii "/c.json" = value := Option.some.inj hvalue
    exact plain_of_all (by decide +kernel)
  · intro f value hvalue
    cases f <;> cases hvalue

/-- Without variables the flag holds; and the file turns the monitor on in the container. -/
theorem precedence_iff_met : (∃ opts, options (fun _ => none) monitorFile blue = some opts ∧
      FlagsKept (blue.drop 1) opts) ∧
    ∃ opts, containerOptions bareShell monitorFile namesFile [] = some opts ∧
      FileTaken (namedFile monitorFile namesFile []) namesFile [] opts := by
  obtain ⟨hflags, hfile⟩ := precedence_iff monitorFile
  constructor
  · have hrun : (options (fun _ => none) monitorFile blue).isSome = true := by decide +kernel
    obtain ⟨opts, hopts⟩ := Option.isSome_iff_exists.mp hrun
    exact ⟨opts, hopts, (hflags _ _ _ hopts).mpr ⟨fun _ _ => nofun, fun _ _ => nofun, fun _ _ _ => nofun⟩⟩
  · have hrun : (containerOptions bareShell monitorFile namesFile []).isSome = true := by decide +kernel
    obtain ⟨opts, hopts⟩ := Option.isSome_iff_exists.mp hrun
    refine ⟨opts, hopts, ((hfile _ _ _ _ hopts).2 plain_namesFile).mpr fun f _ _ v hv => ?_⟩
    cases f
    case monitorEnabled => exact .inl (.inr (.inl rfl))
    all_goals cases hv

/-- The variable wins over the flag, and the script's default over the file. -/
theorem precedence_broken : (¬ ∀ (env : Env) (files : ConfigFiles) (argv : List Bytes) (opts : CliOptions),
      options env files argv = some opts → FlagsKept (argv.drop 1) opts) ∧
    ¬ ∀ (shell : Shell) (files : ConfigFiles) (user : Env) (args : List Bytes) (opts : CliOptions),
      containerOptions shell files user args = some opts →
      FileTaken (configured files ((commandLine shell (container user) args).drop 1)) user args opts := by
  constructor
  · intro h
    have hrun : (options green portFile blue).map CliOptions.cellId = some (ascii "green") := by decide +kernel
    obtain ⟨opts, hopts, hcell⟩ := Option.map_eq_some_iff.mp hrun
    have hkept : some (ascii "blue") = some opts.cellId :=
      h green portFile blue opts hopts .cellId (ascii "blue") (by decide +kernel)
    rw [hcell] at hkept
    exact absurd hkept (by decide)
  · intro h
    have hrun : (containerOptions bareShell portFile namesFile []).map CliOptions.mqttPort = some 1883 := by
      decide +kernel
    obtain ⟨opts, hopts, hport⟩ := Option.map_eq_some_iff.mp hrun
    have hfile := h bareShell portFile namesFile [] opts hopts
    rw [configured_plain plain_namesFile] at hfile
    have htaken : opts.mqttPort = 1990 := hfile .mqttPort (by decide +kernel) rfl 1990 (by decide +kernel)
    rw [hport] at htaken
    exact absurd htaken (by decide)

end LightApr.Platform.Startup
