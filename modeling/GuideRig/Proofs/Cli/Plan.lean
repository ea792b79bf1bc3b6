/-
# GuideRig.Proofs.Cli.Plan -- a server is described by one source

Of the arguments that the server of one document accepts, one is the document or the setting of a
description, and not both (`Gives.instead_iff`), so what it serves is described by what is loaded from the
path of that setting, or by the document and the address to listen on (`DocumentSource`). The server of pages
is described by what is loaded alone wherever that setting is given (`served_from_one_source`).

What comes of a description is said in two stages, without the program: a server with this description is
bound to its address (`IsBound`), and what is bound is run (`IsRun`).
-/

import GuideRig.Cli.Program
import GuideRig.Proofs.Cli.Reader

namespace GuideRig.Cli

/-! ## The two servers -/

theorem documentCommand_clear : documentCommand.IsClear := ⟨by decide, by decide, by decide⟩

theorem pagesCommand_clear : pagesCommand.IsClear := ⟨by decide, by decide, by decide⟩

/-- The address of a setting: the one that texts give it, or else the standard one. -/
inductive AddressGiven (texts : List (Slot × String)) (s : Setting) (a : SocketAddress) : Prop
  | given {text : String} : (.setting s, text) ∈ texts → SocketAddress.ofText? text = some a →
      AddressGiven texts s a
  | standard {text : String} : (∀ text, (.setting s, text) ∉ texts) → s.standard = some text →
      SocketAddress.ofText? text = some a → AddressGiven texts s a

/-! ## What is described, and what comes of it -/

/-- What is loaded from a path: the description there, or the report of why there is none. -/
inductive IsLoaded (files : Files) (path : String) : Except String ServerConfig → Prop
  | found {config : ServerConfig} : ServerConfig.load files path = .ok config →
      IsLoaded files path (.ok config)
  | missing {e : Error} : ServerConfig.load files path = .error e → IsLoaded files path (.error e.report)

/-- What a server of one document is described by: what is loaded from the path of a description, or the
document that it shows with the address to listen on. -/
inductive DocumentSource (texts : List (Slot × String)) (files : Files) :
    Except String ServerConfig → Prop
  | config {path : String} {described : Except String ServerConfig} :
      (.setting configSetting, path) ∈ texts → (∀ path, (.place documentPlace, path) ∉ texts) →
      IsLoaded files path described → DocumentSource texts files described
  | document {path : String} {a : SocketAddress} : (.place documentPlace, path) ∈ texts →
      (∀ path, (.setting configSetting, path) ∉ texts) →
      AddressGiven texts (listenSetting ServerConfig.documentListen) a →
      DocumentSource texts files (.ok ⟨a, .document path, none⟩)

/-- A server is bound for a description: one that has it for its configuration, at the address that its
socket then has. Otherwise there is a report. -/
inductive IsBound (bind : Bindings) : Except String ServerConfig → Except String Server → Prop
  | undescribed {report : String} : IsBound bind (.error report) (.error report)
  | unbound {config : ServerConfig} {cause : IoError} : bind config.listen = .error cause →
      IsBound bind (.ok config) (.error (Error.ioReport cause))
  | bound {config : ServerConfig} {address : SocketAddress} : bind config.listen = .ok address →
      IsBound bind (.ok config) (.ok (.create config address true))

/-- What was bound is run: a server goes through the incidents of its run, and then the lines of its log that
are shown have been printed. A program fails with a report only. -/
inductive IsRun (filter : LogFilter) (incidents : List Incident) : Except String Server → Outcome → Prop
  | unbound {report : String} : IsRun filter incidents (.error report) ⟨1, [], "Error: " ++ report⟩
  | failed {s : Server} {cause : IoError} :
      (s.steps (.run :: incidents)).1.result? = some (.error cause) →
      IsRun filter incidents (.ok s) ⟨1, Outcome.shown filter (Server.logOf (s.steps (.run :: incidents)).2),
        "Error: " ++ (Error.io cause).report⟩
  | ended {s : Server} : (∀ cause, (s.steps (.run :: incidents)).1.result? ≠ some (.error cause)) →
      IsRun filter incidents (.ok s)
        ⟨0, Outcome.shown filter (Server.logOf (s.steps (.run :: incidents)).2), ""⟩

/-- A program with this outcome serves what a plan describes, and nothing else. -/
structure Serves (plan : Plan) (filter : LogFilter) (files : Files) (bind : Bindings)
    (incidents : List Incident) (outcome : Outcome) : Prop where
  bound : IsBound bind (plan.config files) (plan.server files bind)
  run : IsRun filter incidents (plan.server files bind) outcome

variable {c : Command} {s : Setting} {slot : Slot} {text : String} {args : List String}
variable {texts : List (Slot × String)} {given : Given}

/-! ## Values of texts -/

theorem read_path {v : Value} (read : Kind.path.read text = .ok v) : v = .path text := by
  rw [Kind.read] at read
  split at read
  · cases read
  · exact (Except.ok.inj read).symm

theorem read_address {v : Value} (read : Kind.address.read text = .ok v) :
    ∃ a, SocketAddress.ofText? text = some a ∧ v = .address a := by
  rw [Kind.read] at read
  cases found : SocketAddress.ofText? text with
  | none =>
    rw [found] at read
    cases read
  | some a =>
    rw [found] at read
    exact ⟨a, rfl, (Except.ok.inj read).symm⟩

theorem pathOf?_of_mem (fills : Fills [] texts given) (kind : slot.kind = .path) (member : (slot, text) ∈ texts) :
    pathOf? given slot.name = some text := by
  obtain ⟨v, read, found⟩ := fills.lookup_of_mem member
  rw [kind] at read
  rw [pathOf?, found, read_path read]

section Lookup

variable (clear : c.IsClear) (gives : Gives c false args texts) (fills : Fills [] texts given)
include clear gives fills

theorem lookup_of_absent (known : slot ∈ c.slots) (absent : ∀ text, (slot, text) ∉ texts) :
    given.lookup slot.name = none := by
  by_contra found
  obtain ⟨text, member⟩ := (lookup_ne_none_iff clear gives fills known).mp found
  exact absent text member

theorem pathOf?_of_absent (known : slot ∈ c.slots) (absent : ∀ text, (slot, text) ∉ texts) :
    pathOf? given slot.name = none := by
  rw [pathOf?, lookup_of_absent clear gives fills known absent]

/-- The address of a setting is given, or it is the standard one. -/
theorem addressGiven_addressOf (known : s ∈ c.settings) (kind : s.kind = .address) {a : SocketAddress}
    (standard : s.standard = some text) (reads : SocketAddress.ofText? text = some a) :
    AddressGiven texts s (addressOf given s) := by
  by_cases said : ∃ text, (.setting s, text) ∈ texts
  · obtain ⟨text, member⟩ := said
    obtain ⟨v, read, found⟩ := fills.lookup_of_mem member
    rw [show (Slot.setting s).kind = .address from kind] at read
    obtain ⟨a, reads, rfl⟩ := read_address read
    have address : addressOf given s = a := by
      rw [addressOf, valueOf, show given.lookup s.name = some (.address a) from found, Option.some_or]
    rw [address]
    exact .given member reads
  · have absent := not_exists.mp said
    have missing : given.lookup s.name = none :=
      lookup_of_absent clear gives fills (c.setting_mem known) absent
    have address : addressOf given s = a := by
      simp [addressOf, valueOf, missing, standard, kind, Kind.read, reads, Except.toOption]
    rw [address]
    exact .standard absent standard reads

end Lookup

/-! ## Plans -/

section Plans

variable {filter : LogFilter} {files : Files} {bind : Bindings} {incidents : List Incident}

/-- The description of a plan to load one is what is loaded. -/
theorem isLoaded_config (files : Files) (path : String) :
    IsLoaded files path ((Plan.load path).config files) := by
  rw [Plan.config]
  cases loaded : ServerConfig.load files path with
  | ok config => exact .found loaded
  | error e => exact .missing loaded

theorem isBound_server (plan : Plan) (files : Files) (bind : Bindings) :
    IsBound bind (plan.config files) (plan.server files bind) := by
  rw [Plan.server]
  cases plan.config files with
  | error report => exact .undescribed
  | ok config =>
    dsimp only
    rw [Server.init]
    cases got : bind config.listen with
    | error cause => exact .unbound got
    | ok address => exact .bound got

theorem isRun_serve (plan : Plan) (filter : LogFilter) (files : Files) (bind : Bindings)
    (incidents : List Incident) :
    IsRun filter incidents (plan.server files bind) (serve plan filter files bind incidents) := by
  unfold serve
  cases plan.server files bind with
  | error report => exact .unbound
  | ok s =>
    unfold runServer
    dsimp only
    split
    · rename_i cause ended
      exact .failed ended
    · rename_i other
      exact .ended other

theorem serves_serve (plan : Plan) (filter : LogFilter) (files : Files) (bind : Bindings)
    (incidents : List Incident) :
    Serves plan filter files bind incidents (serve plan filter files bind incidents) :=
  ⟨isBound_server plan files bind, isRun_serve plan filter files bind incidents⟩

theorem serverProgram_of_read {plan : Given → Plan} (accepted : c.read args = .ok given) (filter : LogFilter)
    (files : Files) (bind : Bindings) (incidents : List Incident) :
    serverProgram c plan args filter files bind incidents = serve (plan given) filter files bind incidents := by
  rw [serverProgram, accepted]

end Plans

/-! ## Where a description comes from -/

/-- The server of one document is described by one source, so that it never lacks a description. -/
theorem documentPlan_cases (gives : Gives documentCommand false args texts)
    (accepted : documentCommand.read args = .ok given) (files : Files) :
    documentPlan given ≠ .nothing ∧ DocumentSource texts files ((documentPlan given).config files) := by
  have fills := ((gives.read_eq_ok_iff documentCommand_clear).mp accepted).1
  have config_known : configSetting ∈ documentCommand.settings := by decide
  have listen_known : listenSetting ServerConfig.documentListen ∈ documentCommand.settings := by decide
  have either := gives.instead_iff documentCommand_clear accepted rfl config_known rfl
  by_cases config : ∃ path, (.setting configSetting, path) ∈ texts
  · have unplaced := not_exists.mp (either.mp config)
    obtain ⟨path, member⟩ := config
    have plan : documentPlan given = .load path := by
      have found : pathOf? given configSetting.name = some path := pathOf?_of_mem fills rfl member
      rw [documentPlan, found]
    rw [plan]
    exact ⟨nofun, .config member unplaced (isLoaded_config files path)⟩
  · obtain ⟨path, member⟩ := not_not.mp (mt either.mpr config)
    have absent := not_exists.mp config
    have plan : documentPlan given =
        .build ⟨addressOf given (listenSetting ServerConfig.documentListen), .document path, none⟩ := by
      have missing : pathOf? given configSetting.name = none :=
        pathOf?_of_absent documentCommand_clear gives fills (documentCommand.setting_mem config_known) absent
      have found : pathOf? given documentPlace.name = some path := pathOf?_of_mem fills rfl member
      rw [documentPlan, missing, found]
    have standard : SocketAddress.ofText? ServerConfig.documentListen = some (.v4 ⟨127, 0, 0, 1⟩ 8082) := by
      decide +kernel
    rw [plan]
    exact ⟨nofun, .document member absent
      (addressGiven_addressOf documentCommand_clear gives fills listen_known rfl rfl standard)⟩

/-- Whatever arguments the server of one document accepts, they give one of the document and the setting of a
description, and not both. What it is described by comes from that alone: what is loaded from the path of the
setting, or the document and the address to listen on. It never lacks a source, and what is described is what
is bound and run. Whatever arguments the server of pages accepts, if they give the setting of a description,
then what is loaded from its path is described, bound and run, whatever else they give. -/
theorem served_from_one_source (args : List String) (filter : LogFilter) (files : Files) (bind : Bindings)
    (incidents : List Incident) :
    (∀ given, documentCommand.read args = .ok given → (∃ texts, Gives documentCommand false args texts) ∧
      ∀ texts, Gives documentCommand false args texts →
        documentPlan given ≠ .nothing ∧
        DocumentSource texts files ((documentPlan given).config files) ∧
        Serves (documentPlan given) filter files bind incidents
          (serverProgram documentCommand documentPlan args filter files bind incidents)) ∧
    (∀ given, pagesCommand.read args = .ok given → (∃ texts, Gives pagesCommand false args texts) ∧
      ∀ texts path, Gives pagesCommand false args texts → (.setting configSetting, path) ∈ texts →
        IsLoaded files path ((pagesPlan given).config files) ∧
        Serves (pagesPlan given) filter files bind incidents
          (serverProgram pagesCommand pagesPlan args filter files bind incidents) ∧
        serverProgram pagesCommand pagesPlan args filter files bind incidents =
          serve (.load path) filter files bind incidents) := by
  constructor
  · intro given accepted
    refine ⟨Command.exists_gives documentCommand_clear accepted, fun texts gives => ?_⟩
    obtain ⟨planned, source⟩ := documentPlan_cases gives accepted files
    refine ⟨planned, source, ?_⟩
    rw [serverProgram_of_read accepted]
    exact serves_serve (documentPlan given) filter files bind incidents
  · intro given accepted
    refine ⟨Command.exists_gives pagesCommand_clear accepted, fun texts path gives member => ?_⟩
    have fills := ((gives.read_eq_ok_iff pagesCommand_clear).mp accepted).1
    have plan : pagesPlan given = .load path := by
      have found : pathOf? given configSetting.name = some path := pathOf?_of_mem fills rfl member
      rw [pagesPlan, found]
    rw [serverProgram_of_read accepted, plan]
    exact ⟨isLoaded_config files path, serves_serve (.load path) filter files bind incidents, rfl⟩

/-- A server of a document whose name begins with a dash, and a server of pages that is told of a folder and of
a description, which it then serves. Both are run up to the shutdown signal. -/
theorem served_from_one_source_dashed :
    let listen := listenSetting ServerConfig.documentListen
    let a : SocketAddress := .v4 ⟨127, 0, 0, 1⟩ 9
    let document := ["--listen=127.0.0.1:9", "--", "-page.html"]
    let documentGiven : Given := [("listen", .address a), ("DOC_PATH", .path "-page.html")]
    let pages := ["--base-path", "/srv", "--config=pages.toml"]
    let pagesGiven : Given := [("base-path", .path "/srv"), ("config", .path "pages.toml")]
    let described : ServerConfig := ⟨.v4 ⟨127, 0, 0, 1⟩ 80, .document "a.html", none⟩
    let files : Files := fun path => if path = "pages.toml" then
      .ok (Ascii.bytes "listen = \"127.0.0.1:80\"\nfile = \"a.html\"\n") else .error .notFound
    (documentCommand.read document = .ok documentGiven ∧
      (documentPlan documentGiven).config files = .ok ⟨a, .document "-page.html", none⟩ ∧
      DocumentSource [(.setting listen, "127.0.0.1:9"), (.place documentPlace, "-page.html")] files
        ((documentPlan documentGiven).config files) ∧
      Serves (documentPlan documentGiven) .standard files .ok [.signal]
        (serverProgram documentCommand documentPlan document .standard files .ok [.signal])) ∧
    pagesCommand.read pages = .ok pagesGiven ∧
      (pagesPlan pagesGiven).config files = .ok described ∧
      IsLoaded files "pages.toml" ((pagesPlan pagesGiven).config files) ∧
      Serves (pagesPlan pagesGiven) .standard files .ok [.signal]
        (serverProgram pagesCommand pagesPlan pages .standard files .ok [.signal]) ∧
      serverProgram pagesCommand pagesPlan pages .standard files .ok [.signal] =
        ⟨0, ["INFO 127.0.0.1:80 => Server running at http://127.0.0.1:80",
          "INFO 127.0.0.1:80 => Received shutdown signal", "INFO 127.0.0.1:80 => Server stopped"], ""⟩ := by
  intro listen a document documentGiven pages pagesGiven described files
  have accepted : documentCommand.read document = .ok documentGiven := by decide +kernel
  have gives : Gives documentCommand false document
      [(.setting listen, "127.0.0.1:9"), (.place documentPlace, "-page.html")] := by
    have known : listen ∈ documentCommand.settings := by decide
    exact .joined "127.0.0.1:9" known (.ended (.after "-page.html" rfl .nil))
  have source := ((served_from_one_source document .standard files .ok [.signal]).1 _ accepted).2 _ gives
  have accepted' : pagesCommand.read pages = .ok pagesGiven := by decide +kernel
  have gives' : Gives pagesCommand false pages
      [(.setting folderSetting, "/srv"), (.setting configSetting, "pages.toml")] := by
    have folder_known : folderSetting ∈ pagesCommand.settings := by decide
    have config_known : configSetting ∈ pagesCommand.settings := by decide
    exact .apart folder_known (isFree_of_head (by decide)) (.joined "pages.toml" config_known .nil)
  have loaded : (pagesPlan pagesGiven).config files = .ok described := by decide +kernel
  obtain ⟨from_file, served, -⟩ :=
    ((served_from_one_source pages .standard files .ok [.signal]).2 _ accepted').2 _ "pages.toml" gives' (by decide)
  exact ⟨⟨accepted, rfl, source.2⟩, accepted', loaded, from_file, served, by decide +kernel⟩

end GuideRig.Cli
