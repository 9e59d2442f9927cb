import SplitHello.CommandLine
import SplitHello.Packet.Datagrams
import SplitHello.Process.Scope

/-!
# The command line of the engine

The tray starts the engine as a second process of the same program, with its own arguments but
for those that link two processes, and with new ones of these. `parseArgs` reads the narrow
arguments of a process, which the runtime makes of the wide ones; `collectEngineArguments` goes
over the wide ones.
-/

namespace SplitHello

namespace Arguments

open ByteString Json CommandLine ArgumentVector

structure Options where
  workerUrl : Bytes := []
  forcedStrategy : Bytes := []
  processInclude : List Bytes := []
  processExclude : List Bytes := []
  port : ℕ := 1080
  splitDelayMs : ℕ := 0
  splitDelaySet : Bool := false
  setup : Bool := false
  setupOnly : Bool := false
  redeploy : Bool := false
  manualProxy : Bool := false
  quicMode : Packet.QuicMode := .allow
  tunnelFallback : Bool := false
  restoreProxy : Bool := false
  forgetToken : Bool := false
  forgetStrategies : Bool := false
  listStrategies : Bool := false
  verbose : Bool := false
  console : Bool := false
  engine : Bool := false
  shutdownEventName : Bytes := []
  readyEventName : Bytes := []
  liveStatsName : Bytes := []
  parentPid : ℕ := 0
  deriving DecidableEq, Repr

/-! ## Reading them -/

/-- The options with a value behind them. -/
inductive ValueOption
  | worker
  | port
  | splitDelay
  | strategy
  | quicMode
  | includeProcess
  | excludeProcess
  | shutdownEvent
  | readyEvent
  | liveStats
  | parentPid
  deriving DecidableEq, Repr

def ValueOption.name : ValueOption → Bytes
  | .worker => ofString "--worker"
  | .port => ofString "--port"
  | .splitDelay => ofString "--split-delay"
  | .strategy => ofString "--strategy"
  | .quicMode => ofString "--quic-mode"
  | .includeProcess => ofString "--include-process"
  | .excludeProcess => ofString "--exclude-process"
  | .shutdownEvent => ofString "--shutdown-event"
  | .readyEvent => ofString "--ready-event"
  | .liveStats => ofString "--live-stats"
  | .parentPid => ofString "--parent-pid"

def ValueOption.find? (arg : Bytes) : Option ValueOption :=
  [worker, port, splitDelay, strategy, quicMode, includeProcess, excludeProcess, shutdownEvent,
    readyEvent, liveStats, parentPid].find? fun option => option.name = arg

def parseUnsigned (text : Bytes) : Option ℕ :=
  (fromChars 32 text).bind fun value => if text.takeWhile isDigit ≠ text then none else some value

/-- The mode that is named. -/
def parseQuicMode (mode : Bytes) : Option Packet.QuicMode :=
  if mode = ofString "adaptive" then some .adaptive
  else if mode = ofString "block" then some .block
  else if mode = ofString "allow" then some .allow
  else none

/-- The options with this value, unless it is refused. -/
def ValueOption.set (option : ValueOption) (options : Options) (value : Bytes) : Option Options :=
  match option with
  | .worker => some { options with workerUrl := value }
  | .port =>
      (parseUnsigned value).bind fun port =>
        if port = 0 ∨ port > 65535 then none else some { options with port }
  | .splitDelay =>
      (parseUnsigned value).bind fun splitDelayMs =>
        if splitDelayMs > 2000 then none
        else some { options with splitDelayMs, splitDelaySet := true }
  | .strategy =>
      if (Strategy.findProfile value).isNone then none
      else some { options with forcedStrategy := value }
  | .quicMode => (parseQuicMode value).map fun quicMode => { options with quicMode }
  | .includeProcess =>
      if Process.validProcessPattern value then
        some { options with processInclude := options.processInclude ++ [value] }
      else none
  | .excludeProcess =>
      if Process.validProcessPattern value then
        some { options with processExclude := options.processExclude ++ [value] }
      else none
  | .shutdownEvent => some { options with shutdownEventName := value }
  | .readyEvent => some { options with readyEventName := value }
  | .liveStats => some { options with liveStatsName := value }
  | .parentPid => (parseUnsigned value).map fun parentPid => { options with parentPid }

inductive Flag
  | manualProxy
  | noSystemProxy
  | allowQuic
  | tunnelFallback
  | restoreProxy
  | forgetToken
  | forgetStrategies
  | listStrategies
  | verbose
  | console
  | engine
  | setup
  | setupOnly
  | redeploy
  deriving DecidableEq, Repr

def Flag.name : Flag → Bytes
  | .manualProxy => ofString "--manual-proxy"
  | .noSystemProxy => ofString "--no-system-proxy"
  | .allowQuic => ofString "--allow-quic"
  | .tunnelFallback => ofString "--tunnel-fallback"
  | .restoreProxy => ofString "--restore-proxy"
  | .forgetToken => ofString "--forget-token"
  | .forgetStrategies => ofString "--forget-strategies"
  | .listStrategies => ofString "--list-strategies"
  | .verbose => ofString "--verbose"
  | .console => ofString "--console"
  | .engine => ofString "--engine"
  | .setup => ofString "--setup"
  | .setupOnly => ofString "--setup-only"
  | .redeploy => ofString "--redeploy"

def Flag.find? (arg : Bytes) : Option Flag :=
  [manualProxy, noSystemProxy, allowQuic, tunnelFallback, restoreProxy, forgetToken,
    forgetStrategies, listStrategies, verbose, console, engine, setup, setupOnly, redeploy].find?
    fun flag => flag.name = arg

def Flag.set (flag : Flag) (options : Options) : Options :=
  match flag with
  | .manualProxy | .noSystemProxy => { options with manualProxy := true }
  | .allowQuic => { options with quicMode := .allow }
  | .tunnelFallback => { options with tunnelFallback := true }
  | .restoreProxy => { options with restoreProxy := true }
  | .forgetToken => { options with forgetToken := true }
  | .forgetStrategies => { options with forgetStrategies := true }
  | .listStrategies => { options with listStrategies := true }
  | .verbose => { options with verbose := true }
  | .console => { options with console := true }
  | .engine => { options with engine := true }
  | .setup => { options with setup := true }
  | .setupOnly => { options with setup := true, setupOnly := true }
  | .redeploy => { options with redeploy := true }

/-- The exit code after an argument that is no option, or has no value. -/
def refusal (arg : Bytes) : ℕ := if arg = ofString "--help" then 0 else 1

/-- The options, or the exit code. -/
def parseArgs (options : Options) : List Bytes → Except ℕ Options
  | [] => .ok options
  | [arg] =>
      match Flag.find? arg with
      | some flag => .ok (flag.set options)
      | none => .error (refusal arg)
  | arg :: value :: rest =>
      match ValueOption.find? arg with
      | some option =>
          match option.set options value with
          | some options => parseArgs options rest
          | none => .error 1
      | none =>
          match Flag.find? arg with
          | some flag => parseArgs (flag.set options) (value :: rest)
          | none => .error (refusal arg)

def shouldRunTray (options : Options) : Bool :=
  !options.engine && !options.console && !options.verbose && !options.manualProxy &&
    !options.setup && !options.redeploy && !options.restoreProxy && !options.forgetToken &&
    !options.forgetStrategies && !options.listStrategies

/-! ## Passing them on -/

/-- ASCII as a wide string. -/
def wideText (text : Bytes) : Wide := text.map UInt8.toUInt16

/-- The options that link two processes. -/
def ValueOption.links : List ValueOption := [.shutdownEvent, .readyEvent, .parentPid, .liveStats]

def internalNames : List Wide := ValueOption.links.map fun option => wideText option.name

def engineFlag : Wide := wideText Flag.engine.name

/-- The tray's own arguments for the engine. -/
def collectEngineArguments : List Wide → List Wide
  | [] => []
  | [argument] => if argument ∈ internalNames ∨ argument = engineFlag then [] else [argument]
  | argument :: value :: rest =>
      if argument ∈ internalNames then collectEngineArguments rest
      else if argument = engineFlag then collectEngineArguments (value :: rest)
      else argument :: collectEngineArguments (value :: rest)

/-- `Local\SplitHello-` and what the event is for, who makes it, and when. -/
def uniqueEventName (purpose : Bytes) (pid ticks : ℕ) : Bytes :=
  ofString "Local\\SplitHello-" ++ purpose ++ ofString "-" ++ decimal pid ++ ofString "-" ++
    decimal ticks

/-- What `startEngine` puts behind the arguments that were collected. -/
def linkArguments (pid : ℕ) (shutdownName readyName liveStatsName : Bytes) : List Wide :=
  [engineFlag, wideText ValueOption.shutdownEvent.name, wideText shutdownName,
    wideText ValueOption.readyEvent.name, wideText readyName,
    wideText ValueOption.parentPid.name, wideText (decimal pid),
    wideText ValueOption.liveStats.name, wideText liveStatsName]

/-- The command line that `startEngine` gives to the new process. -/
def startEngine (executable : Wide) (arguments : List Wide) (pid ticks readyTicks liveTicks : ℕ) :
    Wide :=
  commandLine executable (collectEngineArguments arguments ++
    linkArguments pid (uniqueEventName (ofString "shutdown") pid ticks)
      (uniqueEventName (ofString "ready") pid readyTicks)
      (uniqueEventName (ofString "live-stats") pid liveTicks))

/-- The parameters of the elevated process, with its links if this one waits for it. -/
def relaunchElevated (arguments : List Wide) (waitForExit : Bool) (pid ticks : ℕ) : Wide :=
  if waitForExit then
    parameters arguments ++ wideText (ofString " --shutdown-event ") ++
      quoteArgument (wideText (uniqueEventName (ofString "shutdown") pid ticks)) ++
      wideText (ofString " --parent-pid ") ++ wideText (decimal pid)
  else parameters arguments

/-- What `relaunchElevated` adds for an elevated process that it waits for. -/
def waitArguments (pid : ℕ) (shutdownName : Bytes) : List Wide :=
  [wideText ValueOption.shutdownEvent.name, wideText shutdownName,
    wideText ValueOption.parentPid.name, wideText (decimal pid)]

/-! ## How it is read, argument by argument -/

theorem findValue_name (option : ValueOption) : ValueOption.find? option.name = some option := by
  cases option <;> decide +kernel

theorem findFlag_name (flag : Flag) : Flag.find? flag.name = some flag := by
  cases flag <;> decide +kernel

theorem findValue_flag (flag : Flag) : ValueOption.find? flag.name = none := by
  cases flag <;> decide +kernel

theorem name_of_findFlag {arg : Bytes} {flag : Flag} (h : Flag.find? arg = some flag) :
    flag.name = arg := by
  have hname := List.find?_some h
  exact of_decide_eq_true hname

theorem findValue_of_flag {arg : Bytes} {flag : Flag} (h : Flag.find? arg = some flag) :
    ValueOption.find? arg = none := by
  rw [← name_of_findFlag h]
  exact findValue_flag flag

theorem parseArgs_flag {arg : Bytes} {flag : Flag} (h : Flag.find? arg = some flag)
    (options : Options) (rest : List Bytes) :
    parseArgs options (arg :: rest) = parseArgs (flag.set options) rest := by
  cases rest with
  | nil =>
      unfold parseArgs
      rw [h]
  | cons value rest => rw [parseArgs, findValue_of_flag h, h]

theorem parseArgs_option {arg value : Bytes} {option : ValueOption} {options changed : Options}
    (h : ValueOption.find? arg = some option) (hset : option.set options value = some changed)
    (rest : List Bytes) : parseArgs options (arg :: value :: rest) = parseArgs changed rest := by
  rw [parseArgs, h]
  dsimp only
  rw [hset]

/-- An accepted list of arguments: it is empty, or starts with a flag, or with an option that takes
its value. -/
theorem parseArgs_ok {options result : Options} {args : List Bytes}
    (h : parseArgs options args = .ok result) :
    (args = [] ∧ result = options) ∨
      (∃ arg flag rest, args = arg :: rest ∧ Flag.find? arg = some flag ∧
        parseArgs (flag.set options) rest = .ok result) ∨
      ∃ arg option value rest changed, args = arg :: value :: rest ∧
        ValueOption.find? arg = some option ∧ option.set options value = some changed ∧
        parseArgs changed rest = .ok result := by
  unfold parseArgs at h
  split at h
  · exact Or.inl ⟨rfl, (Except.ok.inj h).symm⟩
  · rename_i arg
    cases hflag : Flag.find? arg with
    | some flag =>
        rw [hflag] at h
        exact Or.inr (Or.inl ⟨arg, flag, [], rfl, hflag, h⟩)
    | none =>
        rw [hflag] at h
        cases h
  · rename_i arg value rest
    cases hoption : ValueOption.find? arg with
    | some option =>
        rw [hoption] at h
        dsimp only at h
        cases hset : option.set options value with
        | some changed =>
            rw [hset] at h
            exact Or.inr (Or.inr ⟨arg, option, value, rest, changed, rfl, hoption, hset, h⟩)
        | none =>
            rw [hset] at h
            cases h
    | none =>
        rw [hoption] at h
        dsimp only at h
        cases hflag : Flag.find? arg with
        | some flag =>
            rw [hflag] at h
            exact Or.inr (Or.inl ⟨arg, flag, value :: rest, rfl, hflag, h⟩)
        | none =>
            rw [hflag] at h
            cases h

theorem parseArgs_append {options result : Options} {args : List Bytes}
    (h : parseArgs options args = .ok result) (more : List Bytes) :
    parseArgs options (args ++ more) = parseArgs result more := by
  induction hn : args.length using Nat.strong_induction_on generalizing options args with
  | _ n ih =>
      rcases parseArgs_ok h with ⟨rfl, rfl⟩ | ⟨arg, flag, rest, rfl, hflag, hrest⟩ |
        ⟨arg, option, value, rest, changed, rfl, hoption, hset, hrest⟩
      · rfl
      · rw [List.cons_append, parseArgs_flag hflag]
        exact ih rest.length (by rw [← hn]; exact Nat.lt_succ_self _) hrest rfl
      · rw [List.cons_append, List.cons_append, parseArgs_option hoption hset]
        refine ih rest.length ?_ hrest rfl
        rw [← hn]
        exact Nat.lt_of_lt_of_le (Nat.lt_succ_self _) (Nat.le_succ _)

/-! ## What does not come from the links -/

/-- The options but for those that link two processes. -/
def Options.unlinked (options : Options) : Options :=
  { options with
    engine := false, shutdownEventName := [], readyEventName := [], liveStatsName := []
    parentPid := 0 }

/-- The options of an engine that is linked to its tray. -/
def Options.linked (options : Options) (pid : ℕ) (shutdownName readyName liveStatsName : Bytes) :
    Options :=
  { options with
    engine := true, shutdownEventName := shutdownName, readyEventName := readyName
    liveStatsName := liveStatsName, parentPid := pid }

/-- The options of an elevated process that another waits for. -/
def Options.waited (options : Options) (pid : ℕ) (shutdownName : Bytes) : Options :=
  { options with shutdownEventName := shutdownName, parentPid := pid }

theorem unlinked_set_flag (flag : Flag) {options options' : Options}
    (h : options.unlinked = options'.unlinked) :
    (flag.set options).unlinked = (flag.set options').unlinked := by
  have hset (o : Options) : (flag.set o).unlinked = (flag.set o.unlinked).unlinked := by
    cases flag <;> rfl
  rw [hset, h, ← hset]

theorem unlinked_set_option (option : ValueOption) {options options' : Options}
    (h : options.unlinked = options'.unlinked) (value : Bytes) :
    (option.set options value).map Options.unlinked =
      (option.set options' value).map Options.unlinked := by
  have hset (o : Options) : (option.set o value).map Options.unlinked =
      (option.set o.unlinked value).map Options.unlinked := by
    cases option with
    | port =>
        rw [ValueOption.set, ValueOption.set]
        cases parseUnsigned value with
        | none => rfl
        | some port =>
            dsimp only [Option.bind_some]
            split <;> rfl
    | splitDelay =>
        rw [ValueOption.set, ValueOption.set]
        cases parseUnsigned value with
        | none => rfl
        | some splitDelayMs =>
            dsimp only [Option.bind_some]
            split <;> rfl
    | strategy =>
        rw [ValueOption.set, ValueOption.set]
        split <;> rfl
    | quicMode =>
        rw [ValueOption.set, ValueOption.set]
        cases parseQuicMode value <;> rfl
    | includeProcess =>
        rw [ValueOption.set, ValueOption.set]
        split <;> rfl
    | excludeProcess =>
        rw [ValueOption.set, ValueOption.set]
        split <;> rfl
    | parentPid =>
        rw [ValueOption.set, ValueOption.set]
        cases parseUnsigned value <;> rfl
    | _ => rfl
  rw [hset, h, ← hset]

theorem unlinked_link {option : ValueOption} (hlink : option ∈ ValueOption.links)
    {options changed : Options} {value : Bytes} (h : option.set options value = some changed) :
    changed.unlinked = options.unlinked := by
  have hcases : option = .shutdownEvent ∨ option = .readyEvent ∨ option = .parentPid ∨
      option = .liveStats := by
    simpa [ValueOption.links] using hlink
  rcases hcases with rfl | rfl | rfl | rfl
  · rw [← Option.some.inj h]
    rfl
  · rw [← Option.some.inj h]
    rfl
  · obtain ⟨parentPid, -, rfl⟩ := Option.map_eq_some_iff.1 h
    rfl
  · rw [← Option.some.inj h]
    rfl

theorem linked_congr {options options' : Options} (h : options.unlinked = options'.unlinked)
    (pid : ℕ) (shutdownName readyName liveStatsName : Bytes) :
    options.linked pid shutdownName readyName liveStatsName =
      options'.linked pid shutdownName readyName liveStatsName := by
  have hlinked (o : Options) : o.linked pid shutdownName readyName liveStatsName =
      o.unlinked.linked pid shutdownName readyName liveStatsName := rfl
  rw [hlinked, h, ← hlinked]

/-! ## From the tray to the engine -/

def Ascii (text : Bytes) : Prop := ∀ c ∈ text, c ≠ 0 ∧ c < 128

instance (text : Bytes) : Decidable (Ascii text) :=
  inferInstanceAs (Decidable (∀ c ∈ text, c ≠ 0 ∧ c < 128))

section

-- what the runtime makes of a wide argument for the narrow ones
variable (narrow : Wide → Bytes)

/-- Every code page has ASCII. -/
def ReadsAscii : Prop := ∀ text : Bytes, Ascii text → narrow (wideText text) = text

/-- No value of another option is the name of one that links processes. -/
def Plain : List Wide → Prop
  | argument :: value :: rest =>
      if (ValueOption.find? (narrow argument)).isSome then
        (argument ∉ internalNames → value ∉ internalNames ∧ value ≠ engineFlag) ∧ Plain rest
      else Plain (value :: rest)
  | _ => True

end

section

variable {narrow : Wide → Bytes}

theorem ascii_option (option : ValueOption) : Ascii option.name := by
  cases option <;> decide +kernel

theorem ascii_engine : Ascii Flag.engine.name := by decide +kernel

theorem ascii_decimal (n : ℕ) : Ascii (decimal n) := by
  intro c hc
  have hdigit := decimal_isDigit n c hc
  rw [isDigit, Bool.and_eq_true, decide_eq_true_eq, decide_eq_true_eq] at hdigit
  refine ⟨?_, UInt8.lt_of_le_of_lt hdigit.2 (by decide)⟩
  rintro rfl
  exact absurd hdigit.1 (by decide)

theorem find_internal (hascii : ReadsAscii narrow) {argument : Wide}
    (h : argument ∈ internalNames) :
    ∃ option ∈ ValueOption.links, ValueOption.find? (narrow argument) = some option := by
  obtain ⟨option, hlink, rfl⟩ := List.mem_map.1 h
  refine ⟨option, hlink, ?_⟩
  rw [hascii _ (ascii_option option)]
  exact findValue_name option

theorem find_engineFlag (hascii : ReadsAscii narrow) :
    Flag.find? (narrow engineFlag) = some .engine := by
  rw [engineFlag, hascii _ ascii_engine]
  exact findFlag_name .engine

theorem collect_cons {argument : Wide} (hinternal : argument ∉ internalNames)
    (hengine : argument ≠ engineFlag) (rest : List Wide) :
    collectEngineArguments (argument :: rest) = argument :: collectEngineArguments rest := by
  cases rest with
  | nil =>
      unfold collectEngineArguments
      rw [if_neg (not_or.2 ⟨hinternal, hengine⟩)]
  | cons value rest => rw [collectEngineArguments, if_neg hinternal, if_neg hengine]

theorem collect_engineFlag (rest : List Wide) :
    collectEngineArguments (engineFlag :: rest) = collectEngineArguments rest := by
  have hinternal : engineFlag ∉ internalNames := by decide +kernel
  cases rest with
  | nil =>
      unfold collectEngineArguments
      rw [if_pos (Or.inr rfl)]
  | cons value rest => rw [collectEngineArguments, if_neg hinternal, if_pos rfl]

theorem collect_internal {argument : Wide} (hinternal : argument ∈ internalNames) (value : Wide)
    (rest : List Wide) :
    collectEngineArguments (argument :: value :: rest) = collectEngineArguments rest := by
  rw [collectEngineArguments, if_pos hinternal]

instance decidablePlain : DecidablePred (Plain narrow)
  | [] => isTrue trivial
  | [_] => isTrue trivial
  | argument :: value :: rest =>
      haveI := decidablePlain rest
      haveI := decidablePlain (value :: rest)
      inferInstanceAs (Decidable (if (ValueOption.find? (narrow argument)).isSome then
        (argument ∉ internalNames → value ∉ internalNames ∧ value ≠ engineFlag) ∧
          Plain narrow rest
      else Plain narrow (value :: rest)))

theorem Plain.tail {argument : Wide} {rest : List Wide} (h : Plain narrow (argument :: rest))
    (hflag : ValueOption.find? (narrow argument) = none) : Plain narrow rest := by
  cases rest with
  | nil => trivial
  | cons value rest =>
      rw [Plain, hflag] at h
      exact h

theorem Plain.value {argument value : Wide} {rest : List Wide}
    (h : Plain narrow (argument :: value :: rest)) {option : ValueOption}
    (hoption : ValueOption.find? (narrow argument) = some option) :
    (argument ∉ internalNames → value ∉ internalNames ∧ value ≠ engineFlag) ∧
      Plain narrow rest := by
  rw [Plain, hoption] at h
  exact h

/-- The arguments that are collected say the same as all, but for the links. -/
theorem parseArgs_collect (hascii : ReadsAscii narrow) {arguments : List Wide}
    {options options' result : Options} (hplain : Plain narrow arguments)
    (hsame : options.unlinked = options'.unlinked)
    (h : parseArgs options (arguments.map narrow) = .ok result) :
    ∃ result', parseArgs options' ((collectEngineArguments arguments).map narrow) = .ok result' ∧
      result.unlinked = result'.unlinked := by
  induction hn : arguments.length using Nat.strong_induction_on generalizing options options'
    arguments with
  | _ n ih =>
      rcases parseArgs_ok h with ⟨hnil, rfl⟩ | ⟨arg, flag, rest, hcons, hflag, hrest⟩ |
        ⟨arg, option, value, rest, changed, hcons, hoption, hset, hrest⟩
      · rw [List.map_eq_nil_iff.1 hnil]
        exact ⟨options', rfl, hsame⟩
      · obtain ⟨argument, arguments, rfl, rfl, rfl⟩ := List.map_eq_cons_iff.1 hcons
        have hvalue := findValue_of_flag hflag
        have hshorter : arguments.length < n := by
          rw [← hn]
          exact Nat.lt_succ_self _
        by_cases hengine : argument = engineFlag
        · have hsame' : (flag.set options).unlinked = options'.unlinked := by
            rw [hengine, find_engineFlag hascii] at hflag
            rw [← Option.some.inj hflag, ← hsame]
            rfl
          rw [hengine, collect_engineFlag]
          exact ih _ hshorter (hplain.tail hvalue) hsame' hrest rfl
        · have hinternal : argument ∉ internalNames := by
            intro hmem
            obtain ⟨option, -, hoption⟩ := find_internal hascii hmem
            rw [hvalue] at hoption
            cases hoption
          rw [collect_cons hinternal hengine, List.map_cons, parseArgs_flag hflag]
          exact ih _ hshorter (hplain.tail hvalue) (unlinked_set_flag flag hsame) hrest rfl
      · obtain ⟨argument, arguments, rfl, rfl, hbehind⟩ := List.map_eq_cons_iff.1 hcons
        obtain ⟨value, arguments, rfl, rfl, rfl⟩ := List.map_eq_cons_iff.1 hbehind
        obtain ⟨hfree, hplain⟩ := hplain.value hoption
        have hshorter : arguments.length < n := by
          rw [← hn]
          exact Nat.lt_of_lt_of_le (Nat.lt_succ_self _) (Nat.le_succ _)
        by_cases hinternal : argument ∈ internalNames
        · obtain ⟨option', hlink, hoption'⟩ := find_internal hascii hinternal
          rw [hoption] at hoption'
          rw [← Option.some.inj hoption'] at hlink
          rw [collect_internal hinternal]
          exact ih _ hshorter hplain ((unlinked_link hlink hset).trans hsame) hrest rfl
        · obtain ⟨hvalue, hvalue'⟩ := hfree hinternal
          have hengine : argument ≠ engineFlag := by
            intro heq
            rw [heq, findValue_of_flag (find_engineFlag hascii)] at hoption
            cases hoption
          have hchanged := unlinked_set_option option hsame (narrow value)
          rw [hset, Option.map_some] at hchanged
          obtain ⟨changed', hset', hsame'⟩ := Option.map_eq_some_iff.1 hchanged.symm
          rw [collect_cons hinternal hengine, collect_cons hvalue hvalue', List.map_cons,
            List.map_cons, parseArgs_option hoption hset']
          exact ih _ hshorter hplain hsame'.symm hrest rfl

theorem parseUnsigned_decimal {n : ℕ} (h : n < 2 ^ 32) : parseUnsigned (decimal n) = some n := by
  have hvalue := fromChars_decimal h [] (by nofun)
  have hdigits := takeWhile_decimal n [] (by nofun)
  rw [List.append_nil] at hvalue hdigits
  rw [parseUnsigned, hvalue, Option.bind_some, hdigits, if_neg (fun hne => hne rfl)]

theorem Ascii.append {text rest : Bytes} (h : Ascii text) (hrest : Ascii rest) :
    Ascii (text ++ rest) := fun c hc => (List.mem_append.1 hc).elim (h c) (hrest c)

theorem ascii_uniqueEventName {purpose : Bytes} (h : Ascii purpose) (pid ticks : ℕ) :
    Ascii (uniqueEventName purpose pid ticks) := by
  have hstart : Ascii (ofString "Local\\SplitHello-") := by decide +kernel
  have hdash : Ascii (ofString "-") := by decide +kernel
  exact ((((hstart.append h).append hdash).append (ascii_decimal pid)).append hdash).append
    (ascii_decimal ticks)

theorem set_parentPid {pid : ℕ} (h : pid < 2 ^ 32) (options : Options) :
    ValueOption.parentPid.set options (decimal pid) = some { options with parentPid := pid } := by
  rw [ValueOption.set, parseUnsigned_decimal h]
  rfl

/-- What `startEngine` adds links the engine to the tray. -/
theorem parseArgs_linkArguments (hascii : ReadsAscii narrow) (options : Options) {pid : ℕ}
    (hpid : pid < 2 ^ 32) {shutdownName readyName liveStatsName : Bytes}
    (hshutdown : Ascii shutdownName) (hready : Ascii readyName) (hlive : Ascii liveStatsName) :
    parseArgs options ((linkArguments pid shutdownName readyName liveStatsName).map narrow) =
      .ok (options.linked pid shutdownName readyName liveStatsName) := by
  simp only [linkArguments, engineFlag, List.map_cons, List.map_nil, hascii _ (ascii_option _),
    hascii _ ascii_engine, hascii _ hshutdown, hascii _ hready, hascii _ hlive,
    hascii _ (ascii_decimal pid)]
  rw [parseArgs_flag (findFlag_name .engine),
    parseArgs_option (findValue_name .shutdownEvent) rfl,
    parseArgs_option (findValue_name .readyEvent) rfl,
    parseArgs_option (findValue_name .parentPid) (set_parentPid hpid _),
    parseArgs_option (findValue_name .liveStats) rfl, parseArgs]
  rfl

theorem parseArgs_waitArguments (hascii : ReadsAscii narrow) (options : Options) {pid : ℕ}
    (hpid : pid < 2 ^ 32) {shutdownName : Bytes} (hshutdown : Ascii shutdownName) :
    parseArgs options ((waitArguments pid shutdownName).map narrow) =
      .ok (options.waited pid shutdownName) := by
  simp only [waitArguments, List.map_cons, List.map_nil, hascii _ (ascii_option _),
    hascii _ hshutdown, hascii _ (ascii_decimal pid)]
  rw [parseArgs_option (findValue_name .shutdownEvent) rfl,
    parseArgs_option (findValue_name .parentPid) (set_parentPid hpid _), parseArgs]
  rfl

/-! ## The texts that carry them -/

theorem Ascii.zero_notMem {text : Bytes} (h : Ascii text) : (0 : UInt16) ∉ wideText text := by
  intro hmem
  obtain ⟨c, hc, hzero⟩ := List.mem_map.1 hmem
  exact (h c hc).1 (UInt8.toUInt16_inj.1 hzero)

theorem collect_subset (arguments : List Wide) :
    ∀ argument ∈ collectEngineArguments arguments, argument ∈ arguments := by
  fun_induction collectEngineArguments arguments with
  | case1 => exact fun _ h => h
  | case2 => nofun
  | case3 => exact fun _ h => h
  | case4 argument value rest _ ih =>
      exact fun next hnext => List.mem_cons_of_mem _ (List.mem_cons_of_mem _ (ih next hnext))
  | case5 value rest _ ih => exact fun next hnext => List.mem_cons_of_mem _ (ih next hnext)
  | case6 argument value rest _ _ ih =>
      intro next hnext
      rcases List.mem_cons.1 hnext with rfl | hnext
      · exact List.mem_cons_self
      · exact List.mem_cons_of_mem _ (ih next hnext)

/-- Arguments behind those that were written already, also where there are none of these. -/
theorem split_behind (doubled : Doubled) (arguments more : List Wide) :
    split windows doubled .plain 0 none
        (parameters arguments ++ more.flatMap fun argument => 32 :: quoteArgument argument) =
      arguments ++ more := by
  cases arguments with
  | nil =>
      cases more with
      | nil => rfl
      | cons argument more =>
          rw [List.flatMap_cons, List.cons_append, ← parameters_cons]
          exact (split_separator (by decide) (by decide) none).trans (split_parameters _ _)
  | cons argument arguments =>
      rw [parameters_cons, List.append_assoc, ← List.flatMap_append, ← parameters_cons,
        split_parameters, List.cons_append]

theorem zero_notMem_linkArguments {pid : ℕ} {shutdownName readyName liveStatsName : Bytes}
    (hshutdown : Ascii shutdownName) (hready : Ascii readyName) (hlive : Ascii liveStatsName) :
    ∀ argument ∈ linkArguments pid shutdownName readyName liveStatsName,
      (0 : UInt16) ∉ argument := by
  simp only [linkArguments, List.forall_mem_cons]
  exact ⟨ascii_engine.zero_notMem, (ascii_option _).zero_notMem, hshutdown.zero_notMem,
    (ascii_option _).zero_notMem, hready.zero_notMem, (ascii_option _).zero_notMem,
    (ascii_decimal pid).zero_notMem, (ascii_option _).zero_notMem, hlive.zero_notMem, nofun⟩

theorem zero_notMem_waitArguments {pid : ℕ} {shutdownName : Bytes} (h : Ascii shutdownName) :
    ∀ argument ∈ waitArguments pid shutdownName, (0 : UInt16) ∉ argument := by
  simp only [waitArguments, List.forall_mem_cons]
  exact ⟨(ascii_option _).zero_notMem, h.zero_notMem, (ascii_option _).zero_notMem,
    (ascii_decimal pid).zero_notMem, nofun⟩

theorem zero_notMem_flatMap {more : List Wide} (h : ∀ a ∈ more, (0 : UInt16) ∉ a) :
    (0 : UInt16) ∉ more.flatMap fun argument => 32 :: quoteArgument argument := by
  intro hmem
  obtain ⟨argument, hargument, hmem⟩ := List.mem_flatMap.1 hmem
  rcases List.mem_cons.1 hmem with hmem | hmem
  · exact absurd hmem (by decide)
  · exact zero_notMem_quoteArgument (h argument hargument) hmem

theorem splitCommandLine_commandLine (doubled : Doubled) {executable : Wide}
    {arguments : List Wide} (hexecutable : (0 : UInt16) ∉ executable)
    (hquote : (34 : UInt16) ∉ executable) (h : ∀ a ∈ arguments, (0 : UInt16) ∉ a) :
    splitCommandLine doubled (commandLine executable arguments) = arguments := by
  obtain ⟨rest, heq, hhead, htail⟩ := exists_commandLine executable arguments
  have hrest : (0 : UInt16) ∉ rest := by
    cases rest with
    | nil => exact List.not_mem_nil
    | cons c rest =>
        rw [List.tail_cons] at htail
        rw [List.mem_cons, hhead c rfl, htail, not_or]
        exact ⟨by decide, zero_notMem_parameters h⟩
  have hline : (0 : UInt16) ∉ quoteArgument executable ++ rest :=
    fun hmem => (List.mem_append.1 hmem).elim (zero_notMem_quoteArgument hexecutable) hrest
  rw [splitCommandLine, heq, takeWhile_of_zero_notMem hline,
    behindProgram_quoteArgument hquote fun c hc => by rw [hhead c hc]; rfl, htail,
    split_parameters]

theorem quoteArgument_decimal (n : ℕ) :
    quoteArgument (wideText (decimal n)) = wideText (decimal n) := by
  refine if_pos ⟨fun hnil => decimal_ne_nil n (List.map_eq_nil_iff.1 hnil), ?_⟩
  refine List.all_eq_true.2 fun c hc => decide_eq_true ?_
  obtain ⟨d, hd, rfl⟩ := List.mem_map.1 hc
  intro hmem
  have hsmall : ∀ c ∈ special, c.toNat < 48 := by simp [special]
  have hspecial := hsmall _ hmem
  have hdigit := decimal_isDigit n d hd
  rw [isDigit, Bool.and_eq_true, decide_eq_true_eq, decide_eq_true_eq] at hdigit
  have hlow : 48 ≤ d.toNat := UInt8.le_iff_toNat_le.1 hdigit.1
  rw [UInt8.toNat_toUInt16] at hspecial
  omega

theorem relaunchElevated_waits (arguments : List Wide) (pid ticks : ℕ) :
    relaunchElevated arguments true pid ticks =
      parameters arguments ++
        (waitArguments pid (uniqueEventName (ofString "shutdown") pid ticks)).flatMap
          fun argument => 32 :: quoteArgument argument := by
  have hevent : wideText (ofString " --shutdown-event ") =
      (32 :: quoteArgument (wideText ValueOption.shutdownEvent.name)) ++ [32] := by decide +kernel
  have hparent : wideText (ofString " --parent-pid ") =
      (32 :: quoteArgument (wideText ValueOption.parentPid.name)) ++ [32] := by decide +kernel
  rw [relaunchElevated, if_pos rfl, hevent, hparent]
  simp only [waitArguments, List.flatMap_cons, List.flatMap_nil, List.append_nil,
    quoteArgument_decimal, List.append_assoc, List.cons_append, List.nil_append]

theorem shouldRunTray_waited (options : Options) (pid : ℕ) (shutdownName : Bytes) :
    shouldRunTray (options.waited pid shutdownName) = shouldRunTray options := rfl

theorem shouldRunTray_linked (options : Options) (pid : ℕ)
    (shutdownName readyName liveStatsName : Bytes) :
    shouldRunTray (options.linked pid shutdownName readyName liveStatsName) = false := rfl

/-- An elevated process gets the options of the one that started it, with a link to it if it is
waited for, and shows a tray if that one would have. -/
theorem relaunch_follows (hascii : ReadsAscii narrow) (doubled : Doubled) {arguments : List Wide}
    (hzero : ∀ argument ∈ arguments, (0 : UInt16) ∉ argument) {options : Options}
    (h : parseArgs {} (arguments.map narrow) = .ok options) {pid : ℕ} (hpid : pid < 2 ^ 32)
    (waitForExit : Bool) (ticks : ℕ) :
    let child :=
      if waitForExit then options.waited pid (uniqueEventName (ofString "shutdown") pid ticks)
      else options
    parseArgs {} ((splitArguments doubled
        (relaunchElevated arguments waitForExit pid ticks)).map narrow) = .ok child ∧
      shouldRunTray child = shouldRunTray options := by
  cases waitForExit with
  | false =>
      refine ⟨?_, rfl⟩
      rw [relaunchElevated, if_neg Bool.false_ne_true, splitArguments,
        takeWhile_of_zero_notMem (zero_notMem_parameters hzero), split_parameters, h,
        if_neg Bool.false_ne_true]
  | true =>
      refine ⟨?_, shouldRunTray_waited options pid _⟩
      have hname : Ascii (uniqueEventName (ofString "shutdown") pid ticks) :=
        ascii_uniqueEventName (by decide +kernel) pid ticks
      have hline : (0 : UInt16) ∉ relaunchElevated arguments true pid ticks := by
        rw [relaunchElevated_waits, List.mem_append, not_or]
        exact ⟨zero_notMem_parameters hzero,
          zero_notMem_flatMap (zero_notMem_waitArguments hname)⟩
      rw [splitArguments, takeWhile_of_zero_notMem hline, relaunchElevated_waits, split_behind,
        List.map_append, parseArgs_append h, parseArgs_waitArguments hascii options hpid hname,
        if_pos rfl]

/-- A code page that cuts the letters off at eight bits. -/
def latin (text : Wide) : Bytes := text.map UInt16.toUInt8

theorem latin_readsAscii : ReadsAscii latin := by
  intro text _
  rw [latin, wideText, List.map_map]
  exact List.map_id'' (fun c => UInt8.toUInt8_toUInt16 c) text

theorem relaunch_follows_sample :
    let child := ({ port := 8080 } : Options).waited 7 (uniqueEventName (ofString "shutdown") 7 9)
    parseArgs {} ((splitArguments .delimiter (relaunchElevated
        [wideText (ofString "--port"), wideText (ofString "8080")] true 7 9)).map latin) =
        .ok child ∧
      shouldRunTray child = shouldRunTray { port := 8080 } :=
  relaunch_follows latin_readsAscii .delimiter (by decide +kernel)
    (show parseArgs {} _ = .ok { port := 8080 } by decide +kernel) (by decide) true 9

/-- An engine gets the options of its tray, with the links to it, and never becomes a tray of its
own; the links that the tray has itself are left behind. -/
theorem engine_follows_tray (hascii : ReadsAscii narrow) (doubled : Doubled) {executable : Wide}
    (hexecutable : (0 : UInt16) ∉ executable) (hquote : (34 : UInt16) ∉ executable)
    {arguments : List Wide} (hzero : ∀ argument ∈ arguments, (0 : UInt16) ∉ argument)
    (hplain : Plain narrow arguments) {options : Options}
    (h : parseArgs {} (arguments.map narrow) = .ok options) {pid : ℕ} (hpid : pid < 2 ^ 32)
    (ticks readyTicks liveTicks : ℕ) :
    let engine := options.linked pid (uniqueEventName (ofString "shutdown") pid ticks)
      (uniqueEventName (ofString "ready") pid readyTicks)
      (uniqueEventName (ofString "live-stats") pid liveTicks)
    parseArgs {} ((splitCommandLine doubled
        (startEngine executable arguments pid ticks readyTicks liveTicks)).map narrow) =
        .ok engine ∧
      shouldRunTray engine = false := by
  refine ⟨?_, shouldRunTray_linked options pid _ _ _⟩
  have hshutdown : Ascii (uniqueEventName (ofString "shutdown") pid ticks) :=
    ascii_uniqueEventName (by decide +kernel) pid ticks
  have hready : Ascii (uniqueEventName (ofString "ready") pid readyTicks) :=
    ascii_uniqueEventName (by decide +kernel) pid readyTicks
  have hlive : Ascii (uniqueEventName (ofString "live-stats") pid liveTicks) :=
    ascii_uniqueEventName (by decide +kernel) pid liveTicks
  have hsent : ∀ argument ∈ collectEngineArguments arguments ++
      linkArguments pid (uniqueEventName (ofString "shutdown") pid ticks)
        (uniqueEventName (ofString "ready") pid readyTicks)
        (uniqueEventName (ofString "live-stats") pid liveTicks), (0 : UInt16) ∉ argument := by
    intro argument hmem
    rcases List.mem_append.1 hmem with hmem | hmem
    · exact hzero argument (collect_subset arguments argument hmem)
    · exact zero_notMem_linkArguments hshutdown hready hlive argument hmem
  obtain ⟨collected, hcollected, hsame⟩ := parseArgs_collect hascii hplain rfl h
  rw [startEngine, splitCommandLine_commandLine doubled hexecutable hquote hsent, List.map_append,
    parseArgs_append hcollected, parseArgs_linkArguments hascii collected hpid hshutdown hready
      hlive, linked_congr hsame]

theorem engine_follows_tray_sample :
    let engine := ({ port := 8080, shutdownEventName := ofString "x" } : Options).linked 7
      (uniqueEventName (ofString "shutdown") 7 9) (uniqueEventName (ofString "ready") 7 9)
      (uniqueEventName (ofString "live-stats") 7 5)
    parseArgs {} ((splitCommandLine .delimiter (startEngine (wideText (ofString "a b.exe"))
        [wideText (ofString "--port"), wideText (ofString "8080"),
          wideText (ofString "--shutdown-event"), wideText (ofString "x")] 7 9 9 5)).map latin) =
        .ok engine ∧
      shouldRunTray engine = false :=
  engine_follows_tray latin_readsAscii .delimiter (by decide +kernel) (by decide +kernel)
    (by decide +kernel) (by decide +kernel)
    (show parseArgs {} _ = .ok { port := 8080, shutdownEventName := ofString "x" }
      by decide +kernel) (by decide) 9 9 5

-- without `Plain`: an address that is taken for a link
example : collectEngineArguments [wideText ValueOption.worker.name, engineFlag] =
    [wideText ValueOption.worker.name] := by decide +kernel

end

end Arguments

end SplitHello
