import DistPlatform.Library.Json

/-!
# The privileged broker (`dist-core-rs/src/broker.rs`)

A process with administrator rights that an unprivileged one may talk to. A request carries
no data; everything the broker acts on comes from its configuration and from the ports of its
host, which may answer differently on every call.

## Main definitions

* `Ports`, `World` — the host, with a state of its own, and the log of its answers.
* `Broker.handle` — one request.
* `history` — a sequence of requests, one `Handled` record each.
-/

namespace DistPlatform.Privileged

/-- A path on the host's file system. -/
abbrev Path := String

/-- Everything an unprivileged caller may ask for. -/
inductive Request
  | CheckNow
  | UserConsented
  | Status
  deriving DecidableEq, Repr

inductive DenyReason
  | ManagedByPolicy
  | NothingToInstall
  | StagingNotPrivileged
  | PublisherMismatch
  | VerificationFailed
  | OperationFailed
  deriving DecidableEq, Repr

structure Status where
  installed : Option String
  available : Option String
  managed : Bool
  lastError : Option String
  deriving DecidableEq, Repr

inductive Response
  | Accepted
  | Status (status : Status)
  | Denied (reason : DenyReason)
  deriving DecidableEq, Repr

/-- A release the broker resolved for itself. -/
structure Release where
  version : String
  sha256 : List UInt8
  length : UInt64
  deriving DecidableEq, Repr

structure BrokerConfig where
  appId : String
  channel : String
  staging : Path
  managed : Bool
  deriving DecidableEq, Repr

/-! ## The host -/

/-- The five ports. Each call may change the host's own state, and with it every later
answer. -/
structure Ports (σ : Type) where
  available : String → String → σ → Except String (Option Release) × σ
  fetch : Release → Path → σ → Except String Path × σ
  verify : Path → Release → σ → Except String Unit × σ
  isPrivilegedOnly : Path → σ → Bool × σ
  matchesInstalled : Path → String → σ → Bool × σ

/-- One call of a port and its answer. -/
inductive Event
  | available (appId channel : String) (answer : Except String (Option Release))
  | fetch (release : Release) (staging : Path) (answer : Except String Path)
  | verify (path : Path) (release : Release) (answer : Except String Unit)
  | isPrivilegedOnly (path : Path) (answer : Bool)
  | matchesInstalled (path : Path) (appId : String) (answer : Bool)

/-- The host's state, and the calls of the request being handled. -/
structure World (σ : Type) where
  env : σ
  events : List Event

/-- Call a port and log its answer. -/
def World.ask {σ α : Type} (w : World σ) (port : σ → α × σ) (event : α → Event) : α × World σ :=
  ((port w.env).1, ⟨(port w.env).2, w.events ++ [event (port w.env).1]⟩)

theorem World.events_of_ask {σ α : Type} {w w' : World σ} {port : σ → α × σ} {event : α → Event}
    {answer : α} (h : w.ask port event = (answer, w')) :
    w'.events = w.events ++ [event answer] := by
  obtain ⟨rfl, rfl⟩ := Prod.mk.inj h
  rfl

/-! ## Handling a request -/

structure Broker where
  config : BrokerConfig
  installed : Option String
  offered : Option Release
  lastError : Option String
  deriving DecidableEq, Repr

/-- What handling one request leaves: the answer, the broker, and the world. -/
abbrev Reply (σ : Type) := Response × Broker × World σ

namespace Broker

/-- `Broker::new`, then `set_installed` where the host knows a version. -/
def start (config : BrokerConfig) (installed : Option String) : Broker :=
  ⟨config, installed, none, none⟩

def status (broker : Broker) : Status where
  installed := broker.installed
  available := broker.offered.map (·.version)
  managed := broker.config.managed
  lastError := broker.lastError

section Handle

variable {σ : Type} (ports : Ports σ) (broker : Broker)

/-- Record an error and refuse. -/
def fail (reason : DenyReason) (error : String) (w : World σ) : Reply σ :=
  (.Denied reason, { broker with lastError := some error }, w)

def check (w : World σ) : Reply σ :=
  match w.ask (ports.available broker.config.appId broker.config.channel)
      (.available broker.config.appId broker.config.channel) with
  | (.error e, w) => broker.fail .OperationFailed e w
  | (.ok release, w) =>
    let checked := { broker with offered := release, lastError := none }
    (.Status checked.status, checked, w)

/-- The end of `install`, from the downloaded payload on: verify, compare the publisher,
verify again immediately before use. -/
def installPayload (release : Release) (payload : Path) (w : World σ) : Reply σ :=
  match w.ask (ports.verify payload release) (.verify payload release) with
  | (.error e, w) => broker.fail .VerificationFailed e w
  | (.ok (), w) =>
    match w.ask (ports.matchesInstalled payload broker.config.appId)
        (.matchesInstalled payload broker.config.appId) with
    | (false, w) => broker.fail .PublisherMismatch
        ("publisher of " ++ payload ++ " does not match the installed application") w
    | (true, w) =>
      match w.ask (ports.verify payload release) (.verify payload release) with
      | (.error e, w) => broker.fail .VerificationFailed e w
      | (.ok (), w) =>
        (.Accepted,
          { broker with installed := some release.version, offered := none, lastError := none }, w)

/-- `install` once a release is on offer: the staging guard, then the download. -/
def installRelease (release : Release) (w : World σ) : Reply σ :=
  match w.ask (ports.isPrivilegedOnly broker.config.staging)
      (.isPrivilegedOnly broker.config.staging) with
  | (false, w) => broker.fail .StagingNotPrivileged
      ("staging directory " ++ broker.config.staging ++ " is writable by unprivileged users") w
  | (true, w) =>
    match w.ask (ports.fetch release broker.config.staging)
        (.fetch release broker.config.staging) with
    | (.error e, w) => broker.fail .OperationFailed e w
    | (.ok payload, w) => installPayload ports broker release payload w

def install (w : World σ) : Reply σ :=
  if broker.config.managed then (.Denied .ManagedByPolicy, broker, w)
  else match broker.offered with
    | none => (.Denied .NothingToInstall, broker, w)
    | some release => installRelease ports broker release w

def handle (request : Request) (w : World σ) : Reply σ :=
  match request with
  | .Status => (.Status broker.status, broker, w)
  | .CheckNow => check ports broker w
  | .UserConsented => install ports broker w

end Handle

end Broker

/-! ## What one request can do -/

/-- The calls of an install that went through: the staging directory is privileged, the
payload was fetched into it, verified, compared with the installed publisher, and verified
again. -/
def installCalls (config : BrokerConfig) (release : Release) (payload : Path) : List Event :=
  [.isPrivilegedOnly config.staging true, .fetch release config.staging (.ok payload),
    .verify payload release (.ok ()), .matchesInstalled payload config.appId true,
    .verify payload release (.ok ())]

/-- The calls of a check, or of an install that was refused, contain no successful
`available`. -/
def NoOffer (events : List Event) : Prop :=
  ∀ appId channel release, Event.available appId channel (.ok release) ∉ events

/-- Everything handling one request can amount to. -/
inductive Effect (broker : Broker) : Request → Response → Broker → List Event → Prop
  | status : Effect broker .Status (.Status broker.status) broker []
  | checked (release : Option Release) (response : Response) :
      response ≠ .Accepted → (∀ reason, response ≠ .Denied reason) →
      Effect broker .CheckNow response
        { broker with offered := release, lastError := none }
        [.available broker.config.appId broker.config.channel (.ok release)]
  | denied (request : Request) (reason : DenyReason) (error : Option String)
      (events : List Event) : request ≠ .Status → NoOffer events →
      Effect broker request (.Denied reason) { broker with lastError := error } events
  | installed (release : Release) (payload : Path) :
      broker.config.managed = false → broker.offered = some release →
      Effect broker .UserConsented .Accepted
        { broker with installed := some release.version, offered := none, lastError := none }
        (installCalls broker.config release payload)

section Cases

variable {σ : Type} {ports : Ports σ} {broker broker' : Broker} {w w' : World σ}
  {response : Response}

theorem effect_of_check (hw : w.events = [])
    (h : broker.check ports w = (response, broker', w')) :
    Effect broker .CheckNow response broker' w'.events := by
  unfold Broker.check at h
  split at h
  next e w₁ hask =>
    obtain ⟨rfl, rfl, rfl⟩ := h
    refine .denied .CheckNow .OperationFailed (some e) _ (by simp) ?_
    rw [World.events_of_ask hask, hw]
    simp [NoOffer]
  next release w₁ hask =>
    obtain ⟨rfl, rfl, rfl⟩ := h
    rw [World.events_of_ask hask, hw]
    exact .checked release _ (by simp) (by simp)

theorem effect_of_installPayload {release : Release} {payload : Path}
    (hmanaged : broker.config.managed = false) (hoffered : broker.offered = some release)
    (hw : w.events = [.isPrivilegedOnly broker.config.staging true,
      .fetch release broker.config.staging (.ok payload)])
    (h : broker.installPayload ports release payload w = (response, broker', w')) :
    Effect broker .UserConsented response broker' w'.events := by
  unfold Broker.installPayload at h
  split at h
  next e w₁ hask =>
    obtain ⟨rfl, rfl, rfl⟩ := h
    refine .denied .UserConsented .VerificationFailed (some e) _ (by simp) ?_
    rw [World.events_of_ask hask, hw]
    simp [NoOffer]
  next w₁ hask₁ =>
    split at h
    next w₂ hask₂ =>
      obtain ⟨rfl, rfl, rfl⟩ := h
      refine .denied .UserConsented .PublisherMismatch _ _ (by simp) ?_
      rw [World.events_of_ask hask₂, World.events_of_ask hask₁, hw]
      simp [NoOffer]
    next w₂ hask₂ =>
      split at h
      next e w₃ hask₃ =>
        obtain ⟨rfl, rfl, rfl⟩ := h
        refine .denied .UserConsented .VerificationFailed (some e) _ (by simp) ?_
        rw [World.events_of_ask hask₃, World.events_of_ask hask₂, World.events_of_ask hask₁, hw]
        simp [NoOffer]
      next w₃ hask₃ =>
        obtain ⟨rfl, rfl, rfl⟩ := h
        rw [World.events_of_ask hask₃, World.events_of_ask hask₂, World.events_of_ask hask₁, hw]
        exact .installed release payload hmanaged hoffered

theorem effect_of_installRelease {release : Release}
    (hmanaged : broker.config.managed = false) (hoffered : broker.offered = some release)
    (hw : w.events = []) (h : broker.installRelease ports release w = (response, broker', w')) :
    Effect broker .UserConsented response broker' w'.events := by
  unfold Broker.installRelease at h
  split at h
  next w₁ hask =>
    obtain ⟨rfl, rfl, rfl⟩ := h
    refine .denied .UserConsented .StagingNotPrivileged _ _ (by simp) ?_
    rw [World.events_of_ask hask, hw]
    simp [NoOffer]
  next w₁ hask₁ =>
    split at h
    next e w₂ hask₂ =>
      obtain ⟨rfl, rfl, rfl⟩ := h
      refine .denied .UserConsented .OperationFailed (some e) _ (by simp) ?_
      rw [World.events_of_ask hask₂, World.events_of_ask hask₁, hw]
      simp [NoOffer]
    next payload w₂ hask₂ =>
      refine effect_of_installPayload hmanaged hoffered ?_ h
      rw [World.events_of_ask hask₂, World.events_of_ask hask₁, hw]
      rfl

/-- Whatever the ports answer, a request has one of the effects of the table. -/
theorem effect_of_handle {request : Request} (hw : w.events = [])
    (h : broker.handle ports request w = (response, broker', w')) :
    Effect broker request response broker' w'.events := by
  unfold Broker.handle at h
  split at h
  · obtain ⟨rfl, rfl, rfl⟩ := h
    exact hw ▸ .status
  · exact effect_of_check hw h
  · unfold Broker.install at h
    split at h
    next hmanaged =>
      obtain ⟨rfl, rfl, rfl⟩ := h
      exact .denied .UserConsented .ManagedByPolicy broker.lastError _ (by simp)
        (by simp [NoOffer, hw])
    next hmanaged =>
      split at h
      next hoffered =>
        obtain ⟨rfl, rfl, rfl⟩ := h
        exact .denied .UserConsented .NothingToInstall broker.lastError _ (by simp)
          (by simp [NoOffer, hw])
      next release hoffered =>
        exact effect_of_installRelease (by simpa using hmanaged) hoffered hw h

end Cases

/-! ## Sequences of requests -/

/-- One request of a run, with what it changed and what the ports answered meanwhile. -/
structure Handled where
  request : Request
  before : Broker
  response : Response
  after : Broker
  events : List Event

/-- The run of a sequence of requests, in any order and with any repetition. -/
def history {σ : Type} (ports : Ports σ) : Broker → σ → List Request → List Handled
  | _, _, [] => []
  | broker, env, request :: requests =>
    match broker.handle ports request ⟨env, []⟩ with
    | (response, broker', w) =>
      ⟨request, broker, response, broker', w.events⟩ :: history ports broker' w.env requests

/-- The run `done` ends with `release` on offer: some request got it as a successful answer
of `available` for the configured application and channel, and since then there was neither
another successful answer nor an install. -/
def MostRecentOffer (config : BrokerConfig) (done : List Handled) (release : Release) : Prop :=
  ∃ earlier offer later, done = earlier ++ offer :: later ∧
    Event.available config.appId config.channel (.ok (some release)) ∈ offer.events ∧
    ∀ handled ∈ later, handled.response ≠ .Accepted ∧ NoOffer handled.events

/-- A request that offers nothing and installs nothing leaves the most recent offer. -/
theorem MostRecentOffer.snoc {config : BrokerConfig} {done : List Handled} {release : Release}
    (h : MostRecentOffer config done release) {handled : Handled}
    (hresponse : handled.response ≠ .Accepted) (hevents : NoOffer handled.events) :
    MostRecentOffer config (done ++ [handled]) release := by
  obtain ⟨earlier, offer, later, rfl, hoffer, hlater⟩ := h
  refine ⟨earlier, offer, later ++ [handled], by simp, hoffer, ?_⟩
  intro handled' hmem
  rcases List.mem_append.mp hmem with hmem | hmem
  · exact hlater handled' hmem
  · obtain rfl := List.mem_singleton.mp hmem
    exact ⟨hresponse, hevents⟩

/-- What the run so far guarantees of the broker it leaves. -/
structure Inv (config : BrokerConfig) (done : List Handled) (broker : Broker) : Prop where
  sameConfig : broker.config = config
  offered : ∀ release, broker.offered = some release → MostRecentOffer config done release

theorem inv_start (config : BrokerConfig) (installed : Option String) :
    Inv config [] (Broker.start config installed) :=
  ⟨rfl, nofun⟩

theorem inv_step {config : BrokerConfig} {done : List Handled} {handled : Handled}
    (h : Inv config done handled.before)
    (heffect : Effect handled.before handled.request handled.response handled.after
      handled.events) : Inv config (done ++ [handled]) handled.after := by
  obtain ⟨request, broker, response, broker', events⟩ := handled
  dsimp only at h heffect ⊢
  have hkeep : ∀ release, broker.offered = some release → response ≠ .Accepted →
      NoOffer events →
      MostRecentOffer config (done ++ [⟨request, broker, response, broker', events⟩]) release :=
    fun release hr hresponse hevents => (h.offered release hr).snoc hresponse hevents
  cases heffect with
  | status => exact ⟨h.sameConfig, fun release hr => hkeep release hr (by simp) (by simp [NoOffer])⟩
  | checked offer response hresponse _ =>
    refine ⟨h.sameConfig, fun release hr => ⟨done, _, [], rfl, ?_, by simp⟩⟩
    obtain rfl : offer = some release := hr
    have hconfig : broker.config = config := h.sameConfig
    simp [hconfig]
  | denied request reason error events _ hno =>
    exact ⟨h.sameConfig, fun release hr => hkeep release hr (by simp) hno⟩
  | installed release payload _ _ => exact ⟨h.sameConfig, nofun⟩

/-- An install that the rules allow: consented to on an unmanaged machine, to the version of
the release most recently on offer, after every check answered for the same payload. -/
structure Installs (config : BrokerConfig) (done : List Handled) (handled : Handled) : Prop where
  consented : handled.request = .UserConsented
  unmanaged : config.managed = false
  offered : ∃ release payload, handled.after.installed = some release.version ∧
    MostRecentOffer config done release ∧ handled.events = installCalls config release payload

/-- What a request may do to the broker, given the run before it. -/
structure Safe (config : BrokerConfig) (done : List Handled) (handled : Handled) : Prop where
  changed : handled.after.installed ≠ handled.before.installed → Installs config done handled
  accepted : handled.response = .Accepted → Installs config done handled
  denied : ∀ reason, handled.response = .Denied reason →
    handled.after.installed = handled.before.installed ∧
      handled.after.offered = handled.before.offered
  status : handled.request = .Status → handled.after = handled.before ∧ handled.events = []

theorem safe_of_effect {config : BrokerConfig} {done : List Handled} {handled : Handled}
    (h : Inv config done handled.before)
    (heffect : Effect handled.before handled.request handled.response handled.after
      handled.events) : Safe config done handled := by
  obtain ⟨request, broker, response, broker', events⟩ := handled
  dsimp only at h heffect
  have hconfig : broker.config = config := h.sameConfig
  cases heffect with
  | status => exact ⟨by simp, by simp, by simp, by simp⟩
  | checked offer response haccepted hdenied =>
    exact ⟨by simp, fun hr => absurd hr haccepted, fun reason hr => absurd hr (hdenied reason),
      by simp⟩
  | denied request reason error events hrequest _ =>
    exact ⟨by simp, by simp, by simp, fun hr => absurd hr hrequest⟩
  | installed release payload hmanaged hoffered =>
    have hinstalls : Installs config done ⟨.UserConsented, broker, .Accepted,
        { broker with installed := some release.version, offered := none, lastError := none },
        installCalls broker.config release payload⟩ :=
      ⟨rfl, hconfig ▸ hmanaged, release, payload, rfl, h.offered release hoffered,
        by rw [hconfig]⟩
    exact ⟨fun _ => hinstalls, fun _ => hinstalls, by simp, by simp⟩

/-- Along a run: every request starts from a broker that satisfies the invariant and has one
of the effects of the table. The run before the present broker is `past`. -/
theorem history_spec {σ : Type} {ports : Ports σ} {config : BrokerConfig}
    {past done later : List Handled} {handled : Handled} {requests : List Request}
    {broker : Broker} {env : σ} (hinv : Inv config past broker)
    (h : history ports broker env requests = done ++ handled :: later) :
    Inv config (past ++ done) handled.before ∧
      Effect handled.before handled.request handled.response handled.after handled.events := by
  induction requests generalizing broker env past done with
  | nil => simp [history] at h
  | cons request requests ih =>
    rcases hreply : broker.handle ports request ⟨env, []⟩ with ⟨response, broker', w⟩
    have heffect := effect_of_handle rfl hreply
    simp only [history, hreply] at h
    cases done with
    | nil =>
      obtain ⟨rfl, -⟩ := List.cons.inj h
      exact ⟨by simpa using hinv, heffect⟩
    | cons first done =>
      rw [List.cons_append] at h
      obtain ⟨rfl, htail⟩ := List.cons.inj h
      have hnext : Inv config (past ++ [⟨request, broker, response, broker', w.events⟩]) broker' :=
        inv_step hinv heffect
      simpa using ih hnext htail

/-- Privilege safety of the broker: in every run, whatever the host's ports answer at each
call, every request is safe. -/
theorem handle_safe {σ : Type} (ports : Ports σ) (config : BrokerConfig)
    (installed : Option String) (env : σ) (requests : List Request) {done later : List Handled}
    {handled : Handled}
    (h : history ports (Broker.start config installed) env requests = done ++ handled :: later) :
    Safe config done handled := by
  obtain ⟨hinv, heffect⟩ := history_spec (inv_start config installed) h
  exact safe_of_effect hinv heffect

/-- A host whose verifier answers well the first two times it is asked, and badly after. -/
def twoGoodAnswers (release : Release) : Ports Nat where
  available _ _ n := (.ok (some release), n)
  fetch _ staging n := (.ok (staging ++ "/payload"), n)
  verify _ _ n := (if n < 2 then .ok () else .error "digest does not match", n + 1)
  isPrivilegedOnly _ n := (true, n)
  matchesInstalled _ _ n := (true, n)

theorem handle_safe_install :
    ∃ handled, handled.response = .Accepted ∧
      Safe ⟨"editor", "stable", "staging", false⟩
        [⟨.CheckNow, ⟨⟨"editor", "stable", "staging", false⟩, some "1.0", none, none⟩,
          .Status ⟨some "1.0", some "1.1", false, none⟩,
          ⟨⟨"editor", "stable", "staging", false⟩, some "1.0", some ⟨"1.1", [], 0⟩, none⟩,
          [.available "editor" "stable" (.ok (some ⟨"1.1", [], 0⟩))]⟩] handled :=
  ⟨⟨.UserConsented,
      ⟨⟨"editor", "stable", "staging", false⟩, some "1.0", some ⟨"1.1", [], 0⟩, none⟩, .Accepted,
      ⟨⟨"editor", "stable", "staging", false⟩, some "1.1", none, none⟩,
      installCalls ⟨"editor", "stable", "staging", false⟩ ⟨"1.1", [], 0⟩ "staging/payload"⟩, rfl,
    handle_safe (twoGoodAnswers ⟨"1.1", [], 0⟩) ⟨"editor", "stable", "staging", false⟩
      (some "1.0") 0 [.CheckNow, .UserConsented, .CheckNow, .UserConsented] rfl⟩

end DistPlatform.Privileged
