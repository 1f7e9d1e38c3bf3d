import Corsget.CacheStore
import Corsget.LoadedConfig
import Corsget.Server

/-!
# Starting the server

`main.rs` finds the configuration file, loads it and builds the state that the handlers share.
Without an argument and without `CORSGET_CONFIG` the file is the one beside the executable, and
only that one is ever created.  `AppState::new` compiles the patterns and opens the cache,
which stays off for a reason that the status reports.

A server that starts is the one that its configuration describes (`started_from_config`), and
outside the directory of the cache starting it changes at most the configuration beside the
executable, when it is not there or cannot be examined (`startup_keeps_files`).
-/

namespace Corsget

open Effect Text Validation

/-! ## Paths

A path is its text, with the separators of Unix. -/

/-- `Path::is_absolute`. -/
def isAbsolute (path : Str) : Bool := path.head? = some '/'

/-- A path, read from its end, without what `Path::components` skips there: slashes, and dots
after slashes. -/
def trimPathEnd : Str → Str
  | '/' :: rest => if rest = [] then ['/'] else trimPathEnd rest
  | '.' :: '/' :: rest => if rest = [] then ['/'] else trimPathEnd rest
  | s => s

/-- `Path::parent`. -/
def pathParent (path : Str) : Option Str :=
  let reversed := trimPathEnd path.reverse
  if reversed = [] ∨ reversed = ['/'] then none
  else some (trimPathEnd (reversed.dropWhile (· ≠ '/'))).reverse

/-- `Path::join`. -/
def pathJoin (base path : Str) : Str :=
  if isAbsolute path then path
  else if base = [] ∨ base.getLast? = some '/' then base ++ path
  else base ++ '/' :: path

example : pathParent "/opt/corsget/bin".toList = some "/opt/corsget".toList ∧
    pathParent "/".toList = none ∧ pathParent "corsget".toList = some [] ∧
    pathParent "/opt//corsget/./".toList = some "/opt".toList := by decide

/-! ## Operations -/

/-- What `main` does before it serves. -/
inductive BootOp where
  /-- `std::env::current_exe` -/
  | currentExe
  /-- `File::open`, and the bytes that are read from it -/
  | readFile (path : Str)
  /-- `Path::exists` -/
  | fileExists (path : Str)
  /-- `std::fs::write` -/
  | writeFile (path : Str) (bytes : Bytes)
  /-- `std::fs::create_dir_all` -/
  | createDirAll (path : Str)
  /-- an operation of the cache, in its directory -/
  | store (root : Str) (o : IoOp)
  /-- `reqwest::ClientBuilder::build` -/
  | buildClient (timeout : ℕ)

/-- What an operation answers. -/
@[reducible] def BootOp.Res : BootOp → Type
  | currentExe => Except Str Str
  | readFile _ => Except Str Bytes
  | fileExists _ => Bool
  | writeFile _ _ => Except Str Unit
  | createDirAll _ => Except Str Unit
  | store _ o => o.Res
  | buildClient _ => Except Str Unit

/-- The signature of the start. -/
abbrev Boot : Signature := ⟨BootOp, BootOp.Res⟩

namespace Boot

/-- `std::env::current_exe`. -/
def currentExe : Prog Boot (Except Str Str) := .call (S := Boot) .currentExe

/-- `File::open`, and reading. -/
def readFile (path : Str) : Prog Boot (Except Str Bytes) := .call (S := Boot) (.readFile path)

/-- `Path::exists`. -/
def fileExists (path : Str) : Prog Boot Bool := .call (S := Boot) (.fileExists path)

/-- `std::fs::write`. -/
def writeFile (path : Str) (bytes : Bytes) : Prog Boot (Except Str Unit) :=
  .call (S := Boot) (.writeFile path bytes)

/-- `std::fs::create_dir_all`. -/
def createDirAll (path : Str) : Prog Boot (Except Str Unit) :=
  .call (S := Boot) (.createDirAll path)

/-- `reqwest::ClientBuilder::build`. -/
def buildClient (timeout : ℕ) : Prog Boot (Except Str Unit) :=
  .call (S := Boot) (.buildClient timeout)

end Boot

/-- A program of the cache, in the directory `root`. -/
def inStore {α : Type} (root : Str) : Prog Io α → Prog Boot α
  | .ret a => .ret a
  | .op o k => .op (.store root o) fun r => inStore root (k r)

/-- `SocketAddr` with its `FromStr`. -/
class SocketAddrs where
  Addr : Type
  parse : Str → Except Str Addr

/-! ## The cache -/

/-- `CacheDisabledReason`. -/
inductive CacheDisabledReason where
  | disabledByConfig
  | zeroMaxAge
  | zeroMaxSize
  | emptyWhitelist
  | cacheDirectoryUnavailable
  | noValidWhitelistRules
deriving DecidableEq

/-- `CacheStatus`. -/
structure CacheStatus where
  enabled : Bool
  location : Str
  disabledReason : Option CacheDisabledReason
  cleanup : CacheCleanupSummary

/-- `CacheInitialization`. -/
structure CacheInitialization where
  cache : Option Cache
  status : CacheStatus

/-- The directory of the cache: `.cache`, or the configured one, beside the configuration. -/
def cacheRoot (config : CacheConfig) (configPath : Str) : Str :=
  let base := (pathParent configPath).getD ".".toList
  if trim config.location = [] then pathJoin base ".cache".toList
  else pathJoin base (trim config.location)

/-- A cache that stays off. -/
def CacheInitialization.disabled (root : Str) (reason : CacheDisabledReason) :
    CacheInitialization where
  cache := none
  status := ⟨false, root, some reason, {}⟩

section Initialize

variable [RegexCrate] [UnicodeTables]

/-- The rules that compile; the others are skipped. -/
def validRules (rules : List CacheRule) : List CompiledRule :=
  rules.filterMap fun rule => (CompiledRule.new rule).toOption

/-- `Cache::initialize`. -/
def Cache.initialize (config : CacheConfig) (configPath : Str) : Prog Boot CacheInitialization :=
  let root := cacheRoot config configPath
  if config.enabled = false then return .disabled root .disabledByConfig
  else if config.maxAge = 0 then return .disabled root .zeroMaxAge
  else if config.maxSize = 0 then return .disabled root .zeroMaxSize
  else if config.whitelist.isEmpty then return .disabled root .emptyWhitelist
  else do
    match ← Boot.createDirAll root with
    | .error _ => return .disabled root .cacheDirectoryUnavailable
    | .ok () =>
        let rules := validRules config.whitelist
        if rules.isEmpty then return .disabled root .noValidWhitelistRules
        else
          let cache : Cache := ⟨config.maxSize, config.maxAge, rules⟩
          let cleanup ← inStore root (cleanupStartup cache)
          return ⟨some cache, ⟨true, root, none, cleanup⟩⟩

end Initialize

/-! ## The state -/

/-- `HeaderOverrideError`, as text. -/
def HeaderOverrideError.text : HeaderOverrideError → Str
  | .site pattern source =>
      "invalid `site` pattern `".toList ++ pattern ++ "`: ".toList ++ source.text
  | .headerName name reason =>
      "invalid header name `".toList ++ name ++ "` in response header override: ".toList ++ reason
  | .headerValue name reason =>
      "invalid header value for `".toList ++ name ++ "` in response header override: ".toList ++
        reason

/-- `AppError`, as text. -/
def AppError.text : AppError → Str
  | .badUrl message => "invalid target url: ".toList ++ message
  | .denied message => "access denied: ".toList ++ message
  | .tooLarge message => "response too large: ".toList ++ message
  | .upstream message => "upstream error: ".toList ++ message
  | .limitBackend message => "rate limit storage failure: ".toList ++ message

/-- What `AppState` holds: the state of the handlers, the byte limiter, and what became of the
cache. -/
structure Built where
  server : Server
  bandwidth : BandwidthLimiter
  cacheStatus : CacheStatus

section Start

variable [RegexCrate] [UnicodeTables]

/-- `AppState::new`. -/
def AppState.new (config : Config) (configPath : Str) : Prog Boot (Except AppError Built) := do
  match MatchPolicy.new config.connection.target.blacklist config.connection.target.whitelist
      config.connection.origin.blacklist config.connection.origin.whitelist with
  | .error e => return .error (.denied ("invalid match policy: ".toList ++ e.text))
  | .ok matchPolicy =>
      let initialization ← Cache.initialize config.cache configPath
      match HeaderOverridePolicy.new config.proxy.responseHeadersOverrides with
      | .error e => return .error (.denied ("invalid header override: ".toList ++ e.text))
      | .ok headerOverrides =>
          match ← Boot.buildClient config.proxy.timeout with
          | .error e => return .error (.upstream e)
          | .ok () =>
              return .ok {
                server := {
                  state := {
                    matchPolicy := matchPolicy
                    rateLimit := config.connection.rateLimit
                    resultMax := config.connection.bandwidthLimit.result.max
                    maxRedirects := config.proxy.maxRedirects
                    cache := initialization.cache
                    headerOverrides := headerOverrides }
                  realIpHeader := config.application.realIpHeader }
                bandwidth := .new config.connection.bandwidthLimit.connection
                cacheStatus := initialization.status }

variable [YamlCrate] [SocketAddrs]

/-- The text of an error of loading, as `main` returns it. -/
def loadText (path : Str) (e : ConfigError) : Str :=
  "failed to load config from `".toList ++ path ++ "`: ".toList ++ e.toText

/-- `config.yml` beside the executable. -/
def besideExe (exe : Str) : Except Str Str :=
  match pathParent exe with
  | none => .error "executable has no parent directory".toList
  | some dir => .ok (pathJoin dir "config.yml".toList)

/-- The path of the configuration: the argument, `CORSGET_CONFIG`, or `config.yml` beside the
executable. -/
def findConfig (cli env : Option Str) : Prog Boot (Except Str Str) := do
  match cli.or env with
  | some path => return .ok path
  | none =>
      match ← Boot.currentExe with
      | .error e => return .error e
      | .ok exe => return besideExe exe

/-- Load the configuration; when `implicit`, a file that is missing is created first, from the
template that is built into the executable. -/
def loadConfig (template : Bytes) (implicit : Bool) (path : Str) :
    Prog Boot (Except Str Config) := do
  match Config.load (← Boot.readFile path) with
  | .ok config => return .ok config
  | .error e =>
      if implicit then
        if ← Boot.fileExists path then return .error (loadText path e)
        else
          match ← Boot.writeFile path template with
          | .error e => return .error e
          | .ok () => return (Config.load (← Boot.readFile path)).mapError ConfigError.toText
      else return .error (loadText path e)

/-- The addresses that `main` binds. -/
def bindAddresses (application : ApplicationConfig) : Except Str (List SocketAddrs.Addr) :=
  application.host.mapM fun host =>
    SocketAddrs.parse (host ++ ':' :: decimal application.port)

/-- `main`, up to the point where it binds its addresses. -/
def startup (template : Bytes) (cli env : Option Str) :
    Prog Boot (Except Str (Built × List SocketAddrs.Addr)) := do
  match ← findConfig cli env with
  | .error e => return .error e
  | .ok path =>
      match ← loadConfig template (cli.or env).isNone path with
      | .error e => return .error e
      | .ok config =>
          match bindAddresses config.application with
          | .error e => return .error e
          | .ok addrs =>
              match ← AppState.new config path with
              | .error e => return .error e.text
              | .ok built => return .ok (built, addrs)

/-! ## The files on disk -/

/-- The files outside the directory of the cache, by path. -/
abbrev Files := Str → Option Bytes

/-- What the operations do to them, when the executable is `exe` and the paths in `hidden` are
those that cannot be examined: `Path::exists` may answer no for them, and it may answer yes where
something other than a file is.  Any operation may fail, and a write that fails may leave anything
under its path. -/
def bootEnv (exe : Str) (hidden : Str → Prop) : Env Boot Files
  | .currentExe, files, r, files' => files' = files ∧ ∀ path, r = .ok path → path = exe
  | .readFile path, files, r, files' =>
      files' = files ∧ ∀ bytes, r = .ok bytes → files path = some bytes
  | .fileExists path, files, r, files' =>
      files' = files ∧ (r = false → files path = none ∨ hidden path)
  | .writeFile path bytes, files, r, files' =>
      (∀ other, other ≠ path → files' other = files other) ∧
        (r = .ok () → files' path = some bytes)
  | .createDirAll _, files, _, files' => files' = files
  | .store _ _, files, _, files' => files' = files
  | .buildClient _, files, _, files' => files' = files

/-- The path of the configuration beside the executable. -/
def IsDefault (exe path : Str) : Prop :=
  ∃ dir, pathParent exe = some dir ∧ path = pathJoin dir "config.yml".toList

/-- Where the configuration is. -/
def IsConfigPath (exe : Str) (cli env : Option Str) (path : Str) : Prop :=
  cli.or env = some path ∨ cli.or env = none ∧ IsDefault exe path

/-- Whatever changed is the default configuration, which was not there before or could not be
examined. -/
def OnlyWritesDefault (exe : Str) (hidden : Str → Prop) (cli env : Option Str)
    (files files' : Files) : Prop :=
  ∀ path, files' path ≠ files path →
    cli.or env = none ∧ IsDefault exe path ∧ (files path = none ∨ hidden path)

/-- The operation writes no file. -/
def BootOp.IsReading : BootOp → Prop
  | .writeFile _ _ => False
  | _ => True

omit [RegexCrate] [UnicodeTables] [YamlCrate] [SocketAddrs] in
theorem bootEnv_reading {exe : Str} {hidden : Str → Prop} {o : BootOp} {files files' : Files}
    {r : o.Res} (ho : o.IsReading) (h : bootEnv exe hidden o files r files') :
    files' = files := by
  cases o with
  | writeFile => exact absurd ho id
  | currentExe => exact h.1
  | readFile => exact h.1
  | fileExists => exact h.1
  | createDirAll => exact h
  | store => exact h
  | buildClient => exact h

omit [RegexCrate] [UnicodeTables] [YamlCrate] [SocketAddrs] in
/-- A program that only reads leaves the files as they are. -/
theorem safe_of_reading {α : Type} {exe : Str} {hidden : Str → Prop} {Q : α → Prop}
    {p : Prog Boot α} {files : Files} (h : Meets BootOp.IsReading Q p) :
    Safe (bootEnv exe hidden) (· = files) (fun a _ => Q a) p files :=
  Safe.of_meets h (fun _ _ _ _ ho hs hE => (bootEnv_reading ho hE).trans hs) rfl

omit [RegexCrate] [UnicodeTables] [YamlCrate] [SocketAddrs] in
theorem inStore_reading {α : Type} (root : Str) (p : Prog Io α) :
    Meets BootOp.IsReading (fun _ => True) (inStore root p) := by
  induction p with
  | ret a => trivial
  | op o k ih => exact ⟨trivial, ih⟩

/-! ## What starts -/

/-- Everything that the cache needs is configured, up to valid rules and a directory. -/
def CacheConfig.Usable (config : CacheConfig) : Prop :=
  config.enabled = true ∧ config.maxAge ≠ 0 ∧ config.maxSize ≠ 0 ∧ config.whitelist ≠ []

/-- The reason applies to the configuration, and none that is checked before it does. -/
def CacheDisabledReason.Applies (config : CacheConfig) : CacheDisabledReason → Prop
  | .disabledByConfig => config.enabled = false
  | .zeroMaxAge => config.enabled = true ∧ config.maxAge = 0
  | .zeroMaxSize => config.enabled = true ∧ config.maxAge ≠ 0 ∧ config.maxSize = 0
  | .emptyWhitelist =>
      config.enabled = true ∧ config.maxAge ≠ 0 ∧ config.maxSize ≠ 0 ∧ config.whitelist = []
  | .cacheDirectoryUnavailable => config.Usable
  | .noValidWhitelistRules => config.Usable ∧ validRules config.whitelist = []

/-- The cache is open with the settings of the configuration, or it is off and the status
gives a reason that applies. -/
def CacheInitialization.Describes (config : CacheConfig) (initialization : CacheInitialization) :
    Prop :=
  (config.Usable ∧ validRules config.whitelist ≠ [] ∧
    initialization.cache = some ⟨config.maxSize, config.maxAge, validRules config.whitelist⟩ ∧
      initialization.status.enabled = true ∧ initialization.status.disabledReason = none) ∨
  (initialization.cache = none ∧ initialization.status.enabled = false ∧
    ∃ reason : CacheDisabledReason, initialization.status.disabledReason = some reason ∧
      reason.Applies config)

omit [UnicodeTables] [YamlCrate] [SocketAddrs] in
theorem initialize_meets (config : CacheConfig) (configPath : Str) :
    Meets BootOp.IsReading
      (fun initialization => initialization.Describes config ∧
        initialization.status.location = cacheRoot config configPath) <|
      Cache.initialize config configPath := by
  have hdisabled : ∀ reason : CacheDisabledReason, reason.Applies config →
      Meets BootOp.IsReading
        (fun initialization : CacheInitialization => initialization.Describes config ∧
          initialization.status.location = cacheRoot config configPath)
        (.ret (.disabled (cacheRoot config configPath) reason) : Prog Boot CacheInitialization) :=
    fun reason happlies => ⟨.inr ⟨rfl, rfl, reason, rfl, happlies⟩, rfl⟩
  unfold Cache.initialize
  dsimp only
  split
  · next henabled => exact hdisabled .disabledByConfig henabled
  · next henabled =>
      rw [Bool.not_eq_false] at henabled
      split
      · next hage => exact hdisabled .zeroMaxAge ⟨henabled, hage⟩
      · next hage =>
          split
          · next hsize => exact hdisabled .zeroMaxSize ⟨henabled, hage, hsize⟩
          · next hsize =>
              split
              · next hnil =>
                  exact hdisabled .emptyWhitelist ⟨henabled, hage, hsize, List.isEmpty_iff.mp hnil⟩
              · next hne =>
                  have husable : config.Usable :=
                    ⟨henabled, hage, hsize, fun hnil => hne (List.isEmpty_iff.mpr hnil)⟩
                  refine ⟨trivial, fun created => ?_⟩
                  cases created with
                  | error e => exact hdisabled .cacheDirectoryUnavailable husable
                  | ok created =>
                      show Meets _ _ (if (validRules config.whitelist).isEmpty then _ else _)
                      split
                      · next hrules =>
                          exact hdisabled .noValidWhitelistRules
                            ⟨husable, List.isEmpty_iff.mp hrules⟩
                      · next hrules =>
                          refine (inStore_reading _ _).bind fun cleanup _ => ?_
                          refine ⟨.inl ⟨husable, fun hnil => hrules (List.isEmpty_iff.mpr hnil),
                            rfl, rfl, rfl⟩, rfl⟩

/-- The server is the one that the configuration at `configPath` describes. -/
structure Built.Describes (config : Config) (configPath : Str) (built : Built) : Prop where
  policy : MatchPolicy.new config.connection.target.blacklist config.connection.target.whitelist
    config.connection.origin.blacklist config.connection.origin.whitelist =
      .ok built.server.state.matchPolicy
  overrides : HeaderOverridePolicy.new config.proxy.responseHeadersOverrides =
    .ok built.server.state.headerOverrides
  rateLimit : built.server.state.rateLimit = config.connection.rateLimit
  resultMax : built.server.state.resultMax = config.connection.bandwidthLimit.result.max
  maxRedirects : built.server.state.maxRedirects = config.proxy.maxRedirects
  realIpHeader : built.server.realIpHeader = config.application.realIpHeader
  bandwidth : built.bandwidth = .new config.connection.bandwidthLimit.connection
  cache : CacheInitialization.Describes config.cache ⟨built.server.state.cache, built.cacheStatus⟩
  location : built.cacheStatus.location = cacheRoot config.cache configPath

omit [YamlCrate] [SocketAddrs] in
theorem appState_meets (config : Config) (configPath : Str) :
    Meets BootOp.IsReading (fun r => ∀ built, r = .ok built → built.Describes config configPath)
      (AppState.new config configPath) := by
  unfold AppState.new
  cases hpolicy : MatchPolicy.new config.connection.target.blacklist
      config.connection.target.whitelist config.connection.origin.blacklist
      config.connection.origin.whitelist with
  | error e => exact fun built h => (by cases h)
  | ok matchPolicy =>
      refine (initialize_meets config.cache configPath).bind fun initialization hinit => ?_
      cases hoverrides : HeaderOverridePolicy.new config.proxy.responseHeadersOverrides with
      | error e => exact fun built h => (by cases h)
      | ok headerOverrides =>
          refine ⟨trivial, fun client => ?_⟩
          cases client with
          | error e => exact fun built h => (by cases h)
          | ok client =>
              intro built h
              obtain rfl := Except.ok.inj h
              exact ⟨hpolicy, hoverrides, rfl, rfl, rfl, rfl, rfl, hinit.1, hinit.2⟩

omit [RegexCrate] [UnicodeTables] [YamlCrate] [SocketAddrs] in
theorem findConfig_safe (exe : Str) (hidden : Str → Prop) (cli env : Option Str) (files : Files) :
    Safe (bootEnv exe hidden) (· = files)
      (fun r _ => ∀ path, r = .ok path → IsConfigPath exe cli env path)
      (findConfig cli env) files := by
  unfold findConfig
  cases hexplicit : cli.or env with
  | some path =>
      refine ⟨rfl, fun path' h => .inl ?_⟩
      rw [hexplicit, Except.ok.inj h]
  | none =>
      refine ⟨rfl, fun r files' hE => ?_⟩
      obtain ⟨rfl, hexe⟩ := hE
      cases r with
      | error e => exact ⟨rfl, fun path h => (by cases h)⟩
      | ok found =>
          obtain rfl := hexe found rfl
          refine ⟨rfl, fun path h => .inr ⟨hexplicit, ?_⟩⟩
          change besideExe found = .ok path at h
          unfold besideExe at h
          split at h
          · cases h
          · next dir hparent => exact ⟨dir, hparent, (Except.ok.inj h).symm⟩

/-- Whatever changed is the implicit configuration, which was not there before or could not be
examined. -/
def WritesAt (hidden : Str → Prop) (implicit : Bool) (path : Str) (files files' : Files) : Prop :=
  ∀ other, files' other ≠ files other →
    implicit = true ∧ other = path ∧ (files path = none ∨ hidden path)

omit [RegexCrate] [UnicodeTables] [SocketAddrs] in
theorem loadConfig_safe (exe : Str) (hidden : Str → Prop) (template : Bytes) (implicit : Bool)
    (path : Str) (files : Files) :
    Safe (bootEnv exe hidden) (WritesAt hidden implicit path files)
      (fun r files' => ∀ config, r = .ok config →
        ∃ bytes, files' path = some bytes ∧ Config.load (.ok bytes) = .ok config)
      (loadConfig template implicit path) files := by
  have hsame : WritesAt hidden implicit path files files := fun other h => absurd rfl h
  have hload : ∀ {files' : Files} {file : Except Str Bytes} {config : Config},
      (∀ bytes, file = .ok bytes → files' path = some bytes) → Config.load file = .ok config →
        ∃ bytes, files' path = some bytes ∧ Config.load (.ok bytes) = .ok config := by
    intro files' file config hfile hconfig
    obtain ⟨bytes, v, rfl, -⟩ := load_eq_ok_iff.mp hconfig
    exact ⟨bytes, hfile bytes rfl, hconfig⟩
  unfold loadConfig
  refine ⟨hsame, fun file files₁ hread => ?_⟩
  obtain ⟨rfl, hfile⟩ := hread
  dsimp only [Prog.bind]
  cases hfirst : Config.load file with
  | ok config =>
      refine ⟨hsame, fun config' h => ?_⟩
      obtain rfl := Except.ok.inj h
      exact hload hfile hfirst
  | error e =>
      cases implicit with
      | false => exact ⟨hsame, fun config h => (by cases h)⟩
      | true =>
          refine ⟨hsame, fun present files₂ hexists => ?_⟩
          obtain ⟨rfl, habsent⟩ := hexists
          cases present with
          | true => exact ⟨hsame, fun config h => (by cases h)⟩
          | false =>
              refine ⟨hsame, fun written files₃ hwrite => ?_⟩
              have hwrites : WritesAt hidden true path files₂ files₃ := by
                intro other hne
                by_cases hother : other = path
                · exact ⟨rfl, hother, habsent rfl⟩
                · exact absurd (hwrite.1 other hother) hne
              cases written with
              | error e => exact ⟨hwrites, fun config h => (by cases h)⟩
              | ok written =>
                  refine ⟨hwrites, fun file files₄ hread => ?_⟩
                  obtain ⟨rfl, hfile⟩ := hread
                  exact ⟨hwrites, fun config h => hload hfile (mapError_eq_ok_iff.mp h)⟩

/-- The server is described by the configuration that is on disk, at the path where it belongs. -/
def Built.OnDisk (exe : Str) (cli env : Option Str) (files : Files) (built : Built)
    (addrs : List SocketAddrs.Addr) : Prop :=
  ∃ path bytes config, IsConfigPath exe cli env path ∧ files path = some bytes ∧
    Config.load (.ok bytes) = .ok config ∧ built.Describes config path ∧
      bindAddresses config.application = .ok addrs

/-- **A start**: in all its states only the default configuration has been written, and a server
that comes out of it is described by the configuration on disk. -/
theorem startup_safe (exe : Str) (hidden : Str → Prop) (template : Bytes) (cli env : Option Str)
    (files : Files) :
    Safe (bootEnv exe hidden) (OnlyWritesDefault exe hidden cli env files)
      (fun r files' => ∀ built addrs, r = .ok (built, addrs) →
        built.OnDisk exe cli env files' addrs)
      (startup template cli env) files := by
  have hsame : OnlyWritesDefault exe hidden cli env files files := fun path h => absurd rfl h
  unfold startup
  refine (findConfig_safe exe hidden cli env files).seq (fun s hs => hs ▸ hsame)
    fun found s hs hpath => ?_
  obtain rfl := hs
  cases found with
  | error e => exact ⟨hsame, fun built addrs h => (by cases h)⟩
  | ok path =>
      have hconfig := hpath path rfl
      have hwrites : ∀ s', WritesAt hidden (cli.or env).isNone path s s' →
          OnlyWritesDefault exe hidden cli env s s' := by
        intro s' hs' other hne
        obtain ⟨himplicit, rfl, habsent⟩ := hs' other hne
        have hor : cli.or env = none := Option.isNone_iff_eq_none.mp himplicit
        rcases hconfig with hexplicit | ⟨-, hdefault⟩
        · rw [hor] at hexplicit
          cases hexplicit
        · exact ⟨hor, hdefault, habsent⟩
      refine (loadConfig_safe exe hidden template _ path s).seq hwrites
        fun loaded s₁ hs₁ hloaded => ?_
      cases loaded with
      | error e => exact ⟨hwrites s₁ hs₁, fun built addrs h => (by cases h)⟩
      | ok config =>
          obtain ⟨bytes, hbytes, hload⟩ := hloaded config rfl
          dsimp only
          cases haddrs : bindAddresses config.application with
          | error e => exact ⟨hwrites s₁ hs₁, fun built addrs h => (by cases h)⟩
          | ok addrs =>
              refine (safe_of_reading (appState_meets config path)).seq
                (fun s' hs' => hs' ▸ hwrites s₁ hs₁) fun built s₂ hs₂ hbuilt => ?_
              obtain rfl := hs₂
              cases built with
              | error e => exact ⟨hwrites s₂ hs₁, fun built addrs h => (by cases h)⟩
              | ok built =>
                  refine ⟨hwrites s₂ hs₁, fun built' addrs' h => ?_⟩
                  obtain ⟨rfl, rfl⟩ := Prod.mk.inj (Except.ok.inj h)
                  exact ⟨path, bytes, config, hconfig, hbytes, hload, hbuilt built rfl, haddrs⟩

/-- **A start changes at most the default configuration**, outside the directory of the cache,
whatever fails on the way and wherever it is cut: a file that was there stays as it was, unless it
is the configuration beside the executable, no other was named, and it could not be examined; and
no other file appears. -/
theorem startup_keeps_files {exe : Str} {hidden : Str → Prop} {template : Bytes}
    {cli env : Option Str} {files files' : Files}
    {rest : Prog Boot (Except Str (Built × List SocketAddrs.Addr))}
    (h : Steps (bootEnv exe hidden) (startup template cli env, files) (rest, files')) (path : Str) :
    (∀ bytes, files path = some bytes →
      files' path = some bytes ∨ cli = none ∧ env = none ∧ IsDefault exe path ∧ hidden path) ∧
    (files' path ≠ files path →
      cli = none ∧ env = none ∧ IsDefault exe path ∧ (files path = none ∨ hidden path)) := by
  have honly : files' path ≠ files path →
      cli = none ∧ env = none ∧ IsDefault exe path ∧ (files path = none ∨ hidden path) := by
    intro hpath
    obtain ⟨hor, hdefault, habsent⟩ :=
      (startup_safe exe hidden template cli env files).crash h path hpath
    obtain ⟨hcli, henv⟩ := Option.or_eq_none_iff.mp hor
    exact ⟨hcli, henv, hdefault, habsent⟩
  refine ⟨fun bytes hbytes => ?_, honly⟩
  by_cases hpath : files' path = files path
  · exact .inl (hpath.trans hbytes)
  · obtain ⟨hcli, henv, hdefault, hnone | hhidden⟩ := honly hpath
    · rw [hbytes] at hnone
      cases hnone
    · exact .inr ⟨hcli, henv, hdefault, hhidden⟩

/-- **A server that starts** is the one described by the configuration on disk, which is well
formed: so its tiers are positive, and its cache is open or off for a reason that applies. -/
theorem started_from_config {exe : Str} {hidden : Str → Prop} {template : Bytes}
    {cli env : Option Str} {files files' : Files} {built : Built} {addrs : List SocketAddrs.Addr}
    (hd : (YamlCrate.deserializer).Lawful)
    (h : Steps (bootEnv exe hidden) (startup template cli env, files)
      (.ret (.ok (built, addrs)), files')) :
    ∃ path bytes config, IsConfigPath exe cli env path ∧ files' path = some bytes ∧
      Config.load (.ok bytes) = .ok config ∧ config.WellFormed ∧ built.Describes config path ∧
        bindAddresses config.application = .ok addrs := by
  obtain ⟨path, bytes, config, hpath, hbytes, hload, hbuilt, haddrs⟩ :=
    ((startup_safe exe hidden template cli env files).value h).2 built addrs rfl
  obtain ⟨-, v, -, -, hconfig⟩ := load_eq_ok_iff.mp hload
  exact ⟨path, bytes, config, hpath, hbytes, hload, (image_ofYaml hd).holds hconfig, hbuilt, haddrs⟩

/-! ## What is cached -/

omit [UnicodeTables] [YamlCrate] [SocketAddrs] in
/-- A rule keeps its age. -/
theorem CompiledRule.maxAge_new {rule : CacheRule} {compiled : CompiledRule}
    (h : CompiledRule.new rule = .ok compiled) : compiled.maxAge = rule.maxAge := by
  unfold CompiledRule.new at h
  dsimp only at h
  split at h
  · cases h
  · split at h
    · obtain ⟨re, -, rfl⟩ := map_eq_ok_iff.mp h
      rfl
    · split at h
      · obtain ⟨host, -, h⟩ := bind_eq_ok_iff.mp h
        obtain ⟨path, -, rfl⟩ := map_eq_ok_iff.mp h
        rfl
      · split at h
        · obtain ⟨host, -, h⟩ := bind_eq_ok_iff.mp h
          obtain ⟨path, -, rfl⟩ := map_eq_ok_iff.mp h
          rfl
        · obtain rfl := Except.ok.inj h
          rfl

/-- The rule compiles, and matches the subject. -/
def CacheRule.Covers (rule : CacheRule) (subject : Str) : Prop :=
  ∃ compiled, CompiledRule.new rule = .ok compiled ∧ compiled.pattern.isMatch subject = true

omit [UnicodeTables] [YamlCrate] [SocketAddrs] in
/-- The last of the valid rules that match comes from the last rule that covers the subject. -/
theorem getLast?_validRules {rules : List CacheRule} {subject : Str} {compiled : CompiledRule}
    (h : ((validRules rules).filter fun rule => rule.pattern.isMatch subject).getLast? =
      some compiled) :
    ∃ before rule after, rules = before ++ rule :: after ∧ rule.Covers subject ∧
      (∀ other ∈ after, ¬other.Covers subject) ∧ compiled.maxAge = rule.maxAge := by
  induction rules using List.reverseRecOn with
  | nil => cases h
  | append_singleton rules rule ih =>
      unfold validRules at h ih
      rw [List.filterMap_append, List.filter_append] at h
      cases hnew : CompiledRule.new rule with
      | error e =>
          rw [List.filterMap_cons_none (by rw [hnew]; rfl)] at h
          obtain ⟨before, found, after, rfl, hcovers, hlast, hage⟩ := ih (by simpa using h)
          refine ⟨before, found, after ++ [rule], by simp, hcovers, fun other hother => ?_, hage⟩
          rcases List.mem_append.mp hother with hother | hother
          · exact hlast other hother
          · obtain rfl := List.mem_singleton.mp hother
            rintro ⟨compiled', hnew', -⟩
            rw [hnew] at hnew'
            cases hnew'
      | ok compiled' =>
          rw [List.filterMap_cons_some (by rw [hnew]; rfl)] at h
          cases hmatch : compiled'.pattern.isMatch subject with
          | true =>
              have heq : compiled' = compiled := by simpa [hmatch] using h
              subst heq
              exact ⟨rules, rule, [], rfl, ⟨_, hnew, hmatch⟩, fun other hother => (by cases hother),
                CompiledRule.maxAge_new hnew⟩
          | false =>
              obtain ⟨before, found, after, rfl, hcovers, hlast, hage⟩ :=
                ih (by simpa [hmatch] using h)
              refine ⟨before, found, after ++ [rule], by simp, hcovers, fun other hother => ?_,
                hage⟩
              rcases List.mem_append.mp hother with hother | hother
              · exact hlast other hother
              · obtain rfl := List.mem_singleton.mp hother
                rintro ⟨compiled'', hnew'', hmatch''⟩
                rw [hnew] at hnew''
                obtain rfl := Except.ok.inj hnew''
                rw [hmatch] at hmatch''
                cases hmatch''

omit [UnicodeTables] [YamlCrate] [SocketAddrs] in
/-- The lifetime of a plan. -/
theorem plan_ttl {cache : Cache} {url : Url} {headers : HeaderMap} {plan : CachePlan}
    (h : cache.plan url headers = some plan) :
    ∃ maxAge, cache.ruleMaxAge (normalizedUrl url) = some maxAge ∧
      plan.ttl = min maxAge cache.defaultMaxAge := by
  unfold Cache.plan at h
  split at h
  · cases h
  · dsimp only at h
    split at h
    · cases h
    · next maxAge hage =>
        split at h
        · cases h
        · cases h
          exact ⟨maxAge, hage, rfl⟩

/-- **Only what the configuration asks for is cached**: a server that starts plans to cache the
answer to a request only when the cache is enabled and the last rule of the whitelist that is
valid and covers the URL says so, and for no longer than that rule and the default age. -/
theorem cached_by_configuration {exe : Str} {hidden : Str → Prop} {template : Bytes}
    {cli env : Option Str} {files files' : Files} {built : Built} {addrs : List SocketAddrs.Addr}
    (h : Steps (bootEnv exe hidden) (startup template cli env, files)
      (.ret (.ok (built, addrs)), files'))
    {cache : Cache} (hcache : built.server.state.cache = some cache) {url : Url}
    {headers : HeaderMap} {plan : CachePlan} (hplan : cache.plan url headers = some plan) :
    ∃ path bytes config, IsConfigPath exe cli env path ∧ files' path = some bytes ∧
      Config.load (.ok bytes) = .ok config ∧ config.cache.enabled = true ∧
      ∃ before rule after, config.cache.whitelist = before ++ rule :: after ∧
        rule.Covers (normalizedUrl url) ∧ (∀ other ∈ after, ¬other.Covers (normalizedUrl url)) ∧
        0 < plan.ttl ∧ plan.ttl = min rule.maxAge config.cache.maxAge := by
  obtain ⟨path, bytes, config, hpath, hbytes, hload, hbuilt, -⟩ :=
    ((startup_safe exe hidden template cli env files).value h).2 built addrs rfl
  refine ⟨path, bytes, config, hpath, hbytes, hload, ?_⟩
  rcases hbuilt.cache with ⟨husable, -, hopen, -⟩ | ⟨hoff, -⟩
  · obtain rfl := Option.some.inj (hcache.symm.trans hopen)
    obtain ⟨maxAge, hage, httl⟩ := plan_ttl hplan
    rw [ruleMaxAge_eq] at hage
    obtain ⟨compiled, hlast, rfl⟩ := Option.map_eq_some_iff.mp hage
    obtain ⟨before, rule, after, hsplit, hcovers, hafter, hmaxAge⟩ := getLast?_validRules hlast
    refine ⟨husable.1, before, rule, after, hsplit, hcovers, hafter,
      Nat.pos_of_ne_zero (plan_eq_some hplan).2, ?_⟩
    rw [httl, hmaxAge]
  · have hnone : built.server.state.cache = none := hoff
    rw [hcache] at hnone
    cases hnone

end Start

/-! ## An example -/

/-- Addresses as texts. -/
@[reducible] def textAddrs : SocketAddrs where
  Addr := Str
  parse text :=
    if text = "127.0.0.1:9647".toList then .ok text
    else .error "invalid socket address syntax".toList

/-- An environment in which nothing fails and the directory of the cache is empty. -/
def bootWorld (exe : Str) : Handler Boot Files
  | .currentExe, files => ((.ok exe : Except Str Str), files)
  | .readFile path, files =>
      ((files path).elim (.error "No such file or directory".toList) .ok, files)
  | .fileExists path, files => ((files path).isSome, files)
  | .writeFile path bytes, files =>
      ((.ok () : Except Str Unit), fun other => if other = path then some bytes else files other)
  | .createDirAll _, files => ((.ok () : Except Str Unit), files)
  | .store _ o, files => ((calmListing [] firstAnswer o ∅).1, files)
  | .buildClient _, files => ((.ok () : Except Str Unit), files)

theorem bootEnv_bootWorld (exe : Str) (hidden : Str → Prop) (o : BootOp) (files : Files) :
    bootEnv exe hidden o files (bootWorld exe o files).1 (bootWorld exe o files).2 := by
  cases o with
  | currentExe => exact ⟨rfl, fun path h => (Except.ok.inj h).symm⟩
  | readFile path =>
      refine ⟨rfl, fun bytes h => ?_⟩
      change (files path).elim _ _ = _ at h
      cases hfile : files path with
      | none =>
          rw [hfile] at h
          cases h
      | some bytes' =>
          rw [hfile] at h
          exact congrArg some (Except.ok.inj h)
  | fileExists path =>
      refine ⟨rfl, fun habsent => .inl ?_⟩
      exact Option.isNone_iff_eq_none.mp (Option.isSome_eq_false_iff.mp habsent)
  | writeFile path bytes => exact ⟨fun other hother => if_neg hother, fun _ => if_pos rfl⟩
  | createDirAll path => rfl
  | store root o => rfl
  | buildClient timeout => rfl

/-- No file, to begin with. -/
def noFiles : Files := fun _ => none

/-- The first start of the program, without arguments, with the caching example built in. -/
def firstStart : Except Str (Built × List Str) × Files :=
  exec (bootWorld "/opt/corsget".toList)
    (@startup fragmentRegex asciiTables yamlReference textAddrs (utf8 cachingText) none none)
    noFiles

/-- It starts, and plans to cache the page of the rule. -/
theorem exists_firstStart : ∃ built addrs cache plan, firstStart.1 = .ok (built, addrs) ∧
    built.server.state.cache = some cache ∧
      @Cache.plan (@RegexCrate.toCrates fragmentRegex) cache exampleUrl [] = some plan := by
  have hplan : ((firstStart.1.toOption.bind fun r => r.1.server.state.cache).bind
      fun cache => @Cache.plan (@RegexCrate.toCrates fragmentRegex) cache exampleUrl []).isSome =
        true := by decide +kernel
  obtain ⟨plan, hplan⟩ := Option.isSome_iff_exists.mp hplan
  obtain ⟨cache, hcache, hplan⟩ := Option.bind_eq_some_iff.mp hplan
  obtain ⟨⟨built, addrs⟩, hbuilt, hcache⟩ := Option.bind_eq_some_iff.mp hcache
  exact ⟨built, addrs, cache, plan, toOption_eq_some_iff.mp hbuilt, hcache, hplan⟩

theorem firstStart_steps (hidden : Str → Prop) : Steps (bootEnv "/opt/corsget".toList hidden)
    (@startup fragmentRegex asciiTables yamlReference textAddrs (utf8 cachingText) none none,
      noFiles)
    (.ret firstStart.1, firstStart.2) :=
  .of_exec (bootEnv_bootWorld _ _) _ _

theorem startup_keeps_files_first :
    firstStart.2 "/opt/config.yml".toList ≠ noFiles "/opt/config.yml".toList ∧
      IsDefault "/opt/corsget".toList "/opt/config.yml".toList := by
  have hcreated : firstStart.2 "/opt/config.yml".toList ≠ noFiles "/opt/config.yml".toList := by
    decide +kernel
  obtain ⟨-, hdefault⟩ := @startup_keeps_files fragmentRegex asciiTables yamlReference textAddrs
    _ (fun _ => False) _ _ _ _ _ _ (firstStart_steps _) "/opt/config.yml".toList
  exact ⟨hcreated, (hdefault hcreated).2.2.1⟩

theorem started_from_config_first : ∃ built addrs path bytes config,
    firstStart.1 = .ok (built, addrs) ∧
      IsConfigPath "/opt/corsget".toList none none path ∧ firstStart.2 path = some bytes ∧
      @Config.load yamlReference (.ok bytes) = .ok config ∧ config.WellFormed ∧
      @Built.Describes fragmentRegex asciiTables config path built ∧
        @bindAddresses textAddrs config.application = .ok addrs := by
  obtain ⟨built, addrs, cache, plan, hbuilt, -⟩ := exists_firstStart
  obtain ⟨path, bytes, config, h⟩ := @started_from_config fragmentRegex asciiTables yamlReference
    textAddrs _ (fun _ => False) _ _ _ _ _ _ _ (@contentRef_lawful textErrors)
    (hbuilt ▸ firstStart_steps _)
  exact ⟨built, addrs, path, bytes, config, hbuilt, h⟩

theorem cached_by_configuration_first : ∃ built addrs cache plan path bytes config,
    firstStart.1 = .ok (built, addrs) ∧ built.server.state.cache = some cache ∧
      @Cache.plan (@RegexCrate.toCrates fragmentRegex) cache exampleUrl [] = some plan ∧
      IsConfigPath "/opt/corsget".toList none none path ∧ firstStart.2 path = some bytes ∧
      @Config.load yamlReference (.ok bytes) = .ok config ∧ config.cache.enabled = true ∧
      ∃ before rule after, config.cache.whitelist = before ++ rule :: after ∧
        @CacheRule.Covers fragmentRegex rule (normalizedUrl exampleUrl) ∧
        (∀ other ∈ after, ¬@CacheRule.Covers fragmentRegex other (normalizedUrl exampleUrl)) ∧
        0 < plan.ttl ∧ plan.ttl = min rule.maxAge config.cache.maxAge := by
  obtain ⟨built, addrs, cache, plan, hbuilt, hcache, hplan⟩ := exists_firstStart
  obtain ⟨path, bytes, config, h⟩ := @cached_by_configuration fragmentRegex asciiTables
    yamlReference textAddrs _ (fun _ => False) _ _ _ _ _ _ _ (hbuilt ▸ firstStart_steps _) _ hcache
    _ _ _ hplan
  exact ⟨built, addrs, cache, plan, path, bytes, config, hbuilt, hcache, hplan, h⟩

end Corsget
