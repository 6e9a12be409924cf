import DistPlatform.Ingest.AttestedVersion
import DistPlatform.Library.History
import DistPlatform.Queue.Jobs

/-!
# What is signed was approved

A publish job is queued by the ingest worker whose own poll was promoted, with that poll's
digest, version and filename, and a signer adds only what such a job names. A poll is decided on
the row of `sources` that the worker read for it. The two kinds of worker keep to their own kinds
of job.

## Main definitions

* `Approves` — an outcome promotes exactly this artifact.
* `lastFetch`, `lastDecision` — the row a worker read last, and the outcome it came to last.
* `EventSound`, `PlaceSound` — the invariant.
-/

namespace DistPlatform.Queue

open Runs History
open Ingest (IngestPlace IngestPorts Polled PublishPayload Quarantine outcomeRecord)
open Registry (Job JobId Source SourceId Statement Store)
open Sign (SignerPlace)

abbrev Log := List (Party × Event)

/-- `ingest` promoted just these bytes, under this version and filename. -/
structure Approves (polled : Polled) (sha256 version filename : String) : Prop where
  promoted : polled.outcome.decision = .PROMOTE
  sha256 : polled.outcome.admitted.map (·.sha256) = some sha256
  version : polled.release.version = version
  filename : polled.asset.name = filename

/-- The row that `p` read last, with the job it read it for. -/
def lastFetch (p : Party) : Log → Option (QueueJob × Source) :=
  latest fun
    | (q, .effect (.fetched job source)) => if q = p then some (job, source) else none
    | _ => none

/-- The latest outcome of `p`, with the job it polled for and the row it polled. -/
def lastDecision (p : Party) : Log → Option (QueueJob × Source × Polled) :=
  latest fun
    | (q, .effect (.decided job source polled)) =>
      if q = p then some (job, source, polled) else none
    | _ => none

/-- `do_poll` comes to the outcome on this row of `sources`. -/
def Polls (ports : IngestPorts) (source : Source) (polled : Polled) : Prop :=
  source.pollable = true ∧ ∃ skipNamed answers quarantine,
    (Ingest.poll ports skipNamed source answers quarantine).1 = .ok (some polled)

/-- What has gone before an event. -/
def EventSound (ports : IngestPorts) (event : Party × Event) (older : Log) : Prop :=
  match event with
  | (p, .enqueued job) => job.kind = .PUBLISH → ∃ worker poll source polled payload,
      p = .ingest worker ∧ lastDecision p older = some (poll, source, polled) ∧
      poll.sourceId = job.sourceId ∧ job.payload = some payload ∧
      Approves polled payload.sha256 payload.version payload.filename
  | (_, .effect (.fetched job source)) => source.id = job.sourceId
  | (p, .effect (.decided job source polled)) =>
      lastFetch p older = some (job, source) ∧ Polls ports source polled
  | (p, .effect (.added job source key artifact)) =>
      lastFetch p older = some (job, source) ∧ ∃ worker poll row polled,
      (.ingest worker, .effect (.decided poll row polled)) ∈ older ∧ poll.sourceId = source.id ∧
      Approves polled (ports.lib.sha256 artifact) key.version key.filename
  | (_, .claimed _ _) => True

/-- What a worker holds between its statements. -/
def PlaceSound (ports : IngestPorts) (log : Log) : ∀ p, Place p → Prop
  | .ingest worker, place => match place with
    | .working job source => source.id = job.sourceId ∧
      lastFetch (.ingest worker) log = some (job, source)
    | .recording job source _ | .failing job source _ => source.id = job.sourceId
    | .finishing job source result => source.id = job.sourceId ∧
      ∀ record, result = .polled record → ∃ polled, record = outcomeRecord polled ∧
        lastDecision (.ingest worker) log = some (job, source, polled)
    | .handingOff job source payload => source.id = job.sourceId ∧ ∃ polled,
      lastDecision (.ingest worker) log = some (job, source, polled) ∧
        Approves polled payload.sha256 payload.version payload.filename
    | _ => True
  | .signer worker, place => match place with
    | .publishing job source => source.id = job.sourceId ∧
      lastFetch (.signer worker) log = some (job, source)
    | .adding job source release => source.id = job.sourceId ∧
      lastFetch (.signer worker) log = some (job, source) ∧ ∃ payload,
      job.payload = some payload ∧ ports.lib.sha256 release.artifact = payload.sha256 ∧
        release.key.version = payload.version ∧ release.key.filename = payload.filename
    | _ => True
  | _, _ => True

/-! ## The log -/

section Log

variable {ports : IngestPorts} {s : Shared} {p q : Party} {act : Act p} {place : Place p}
  {turn : Turn (Place p)}

/-- A turn with an effect commits nothing. -/
theorem turnOf_effect {effect : Effect}
    (h : turnOf ports s.db s.quarantine p act place = some turn)
    (heffect : turn.effect = some effect) : turn.statement = .select := by
  cases p with
  | ingest worker => exact (ingestTurn_effect h heffect).1
  | signer worker => exact (signerTurn_effect h heffect).1
  | request id =>
    obtain rfl := Option.some.inj h
    simp only [adminTurn_effect, reduceCtorEq] at heffect
  | ceremony =>
    obtain rfl := Option.some.inj h
    cases heffect

/-- A turn adds at most one event to the log. -/
theorem commit_log (h : turnOf ports s.db s.quarantine p act place = some turn) :
    (s.commit p turn).log = s.log ∨
      (∃ event, eventOf s.db turn.statement = some event ∧
        (s.commit p turn).log = (p, event) :: s.log) ∨
      ∃ effect, turn.effect = some effect ∧
        (s.commit p turn).log = (p, .effect effect) :: s.log := by
  cases heffect : turn.effect with
  | some effect =>
    have hstatement := turnOf_effect h heffect
    exact .inr (.inr ⟨effect, rfl, by simp [Shared.commit, heffect, hstatement, eventOf,
      Statement.inserted]⟩)
  | none =>
    cases hevent : eventOf s.db turn.statement with
    | some event => exact .inr (.inl ⟨event, rfl, by simp [Shared.commit, heffect, hevent]⟩)
    | none => exact .inl (by simp [Shared.commit, heffect, hevent])

/-- What a turn adds to the log does not say anything new. -/
theorem latest_commit {β : Type} {f : Party × Event → Option β}
    (h : turnOf ports s.db s.quarantine p act place = some turn)
    (hevent : ∀ event, eventOf s.db turn.statement = some event → f (p, event) = none)
    (heffect : ∀ effect, turn.effect = some effect → f (p, .effect effect) = none) :
    latest f (s.commit p turn).log = latest f s.log := by
  obtain hlog | ⟨event, he, hlog⟩ | ⟨effect, he, hlog⟩ := commit_log h
  · rw [hlog]
  · rw [hlog, latest_cons_of_none (hevent event he)]
  · rw [hlog, latest_cons_of_none (heffect effect he)]

theorem eventOf_ne_effect {db : Db} {statement : QueueStatement} {effect : Effect} :
    eventOf db statement ≠ some (.effect effect) := by
  unfold eventOf
  split <;> simp

theorem lastFetch_commit (h : turnOf ports s.db s.quarantine p act place = some turn)
    (hpq : p = q → ∀ job source, turn.effect ≠ some (.fetched job source)) :
    lastFetch q (s.commit p turn).log = lastFetch q s.log := by
  refine latest_commit h (fun event hevent => ?_) fun effect heffect => ?_
  · cases event with
    | effect effect => exact absurd hevent eventOf_ne_effect
    | _ => rfl
  · cases effect with
    | fetched job source => exact if_neg fun h => hpq h job source heffect
    | _ => rfl

/-- The row a turn reads is then the worker's latest. -/
theorem lastFetch_fetched {job : QueueJob} {source : Source}
    (h : turnOf ports s.db s.quarantine p act place = some turn)
    (heffect : turn.effect = some (.fetched job source)) :
    lastFetch p (s.commit p turn).log = some (job, source) := by
  simp [Shared.commit, heffect, turnOf_effect h heffect, eventOf, Statement.inserted,
    lastFetch, latest]

theorem lastDecision_commit (h : turnOf ports s.db s.quarantine p act place = some turn)
    (hpq : p = q → ∀ job source polled, turn.effect ≠ some (.decided job source polled)) :
    lastDecision q (s.commit p turn).log = lastDecision q s.log := by
  refine latest_commit h (fun event hevent => ?_) fun effect heffect => ?_
  · cases event with
    | effect effect => exact absurd hevent eventOf_ne_effect
    | _ => rfl
  · cases effect with
    | decided job source polled => exact if_neg fun h => hpq h job source polled heffect
    | _ => rfl

/-- The outcome a turn comes to is then the worker's latest. -/
theorem lastDecision_decided {job : QueueJob} {source : Source} {polled : Polled}
    (h : turnOf ports s.db s.quarantine p act place = some turn)
    (heffect : turn.effect = some (.decided job source polled)) :
    lastDecision p (s.commit p turn).log = some (job, source, polled) := by
  simp [Shared.commit, heffect, turnOf_effect h heffect, eventOf, Statement.inserted,
    lastDecision, latest]

end Log

/-! ## The places of the workers -/

section Places

variable {ports : IngestPorts} {s : Shared} {worker : Nat}

theorem outcomeRecord_approves {polled : Polled} {payload : PublishPayload}
    (h : Ingest.handOffPayload .POLL (.polled (outcomeRecord polled)) = some payload) :
    Approves polled payload.sha256 payload.version payload.filename := by
  obtain ⟨-, record, hrecord, hpromote, -, hversion, hfilename, hsha⟩ :=
    Ingest.handOffPayload_eq_some h
  obtain rfl := Ingest.JobResult.polled.inj hrecord
  exact ⟨hpromote, hsha, hversion, hfilename⟩

theorem placeSound_ingest {act : Ingest.IngestAct} {place : IngestPlace}
    {turn : Turn IngestPlace} (hplace : PlaceSound ports s.log (.ingest worker) place)
    (h : turnOf ports s.db s.quarantine (.ingest worker) act place = some turn) :
    PlaceSound ports (s.commit (.ingest worker) turn).log (.ingest worker) turn.next := by
  have hturn : Ingest.ingestTurn ports act s.db s.quarantine place = some turn := h
  cases place with
  | fetching job =>
    have hfetched (source : Source) (heffect : turn.effect = some (.fetched job source)) :=
      lastFetch_fetched h heffect
    obtain rfl := Option.some.inj hturn
    dsimp only [Queue.fetchSource] at hfetched ⊢
    cases hsource : s.db.getSource job.sourceId with
    | none => trivial
    | some source =>
      rw [hsource] at hfetched
      exact ⟨Store.id_of_getSource hsource, hfetched source rfl⟩
  | working job source =>
    obtain ⟨hid, -⟩ := hplace
    obtain ⟨hstatement, hwork⟩ :=
      @Ingest.workTurn_cases ports act s.quarantine job source
    rw [Option.some.inj hturn] at hwork
    generalize heffect : turn.effect = effect at hwork
    generalize hnext : turn.next = next at hwork
    cases hwork with
    | failed message => exact hid
    | validated => exact hid
    | noRelease => exact ⟨hid, fun _ h => by cases h⟩
    | decided pollable decides =>
      refine ⟨hid, fun record hrecord => ⟨_, (Ingest.JobResult.polled.inj hrecord).symm, ?_⟩⟩
      exact lastDecision_decided h heffect
  | recording job source result =>
    obtain rfl := Option.some.inj hturn
    exact ⟨hplace, fun _ h => by cases h⟩
  | finishing job source result =>
    obtain ⟨hid, hresult⟩ : source.id = job.sourceId ∧ _ := hplace
    have hkept := @lastDecision_commit ports s (.ingest worker) (.ingest worker) act _ turn h
    obtain rfl := Option.some.inj hturn
    cases hpayload : Ingest.handOffPayload job.kind result with
    | none => simp only [PlaceSound]
    | some payload =>
      obtain ⟨hkind, record, rfl, -⟩ := Ingest.handOffPayload_eq_some hpayload
      obtain ⟨polled, rfl, hlast⟩ := hresult record rfl
      refine ⟨hid, polled, ?_, outcomeRecord_approves (hkind ▸ hpayload)⟩
      refine (hkept ?_).trans hlast
      intro _ _ _ _ heffect
      cases heffect
  | failing job source message =>
    obtain rfl := Option.some.inj hturn
    dsimp only
    split <;> trivial
  | selecting =>
    simp only [Ingest.ingestTurn] at hturn
    split at hturn
    · obtain rfl := Option.some.inj hturn
      trivial
    · cases hturn
  | scanning due =>
    cases due with
    | nil => obtain rfl | ⟨row, -, -, -, rfl⟩ := claimJob_eq_some hturn <;> trivial
    | cons source due =>
      simp only [Ingest.ingestTurn] at hturn
      split at hturn
      · obtain rfl := Option.some.inj hturn
        trivial
      · cases hturn
  | scheduling source unchanged due =>
    obtain rfl := Option.some.inj hturn
    dsimp only
    split <;> trivial
  | _ =>
    obtain rfl := Option.some.inj hturn
    trivial

theorem placeSound_signer {act : Sign.SignerAct} {place : SignerPlace} {turn : Turn SignerPlace}
    (hplace : PlaceSound ports s.log (.signer worker) place)
    (h : turnOf ports s.db s.quarantine (.signer worker) act place = some turn) :
    PlaceSound ports (s.commit (.signer worker) turn).log (.signer worker) turn.next := by
  have hturn : Sign.signerTurn ports.lib act s.db s.quarantine place = some turn := h
  cases place with
  | fetching job =>
    have hfetched (source : Source) (heffect : turn.effect = some (.fetched job source)) :=
      lastFetch_fetched h heffect
    obtain rfl := Option.some.inj hturn
    dsimp only [Queue.fetchSource] at hfetched ⊢
    cases hsource : s.db.getSource job.sourceId with
    | none => trivial
    | some source =>
      rw [hsource] at hfetched
      exact ⟨Store.id_of_getSource hsource, hfetched source rfl⟩
  | publishing job source =>
    obtain ⟨hid, hfetch⟩ : source.id = job.sourceId ∧ _ := hplace
    have hkept := @lastFetch_commit ports s (.signer worker) (.signer worker) act _ turn h
    simp only [Sign.signerTurn] at hturn
    split at hturn
    · obtain rfl := Option.some.inj hturn
      trivial
    next release hrelease =>
      obtain rfl := Option.some.inj hturn
      obtain ⟨hfields, hsha, -, hversion, hfilename⟩ := Sign.releaseOf_eq_ok hrelease
      cases hpayload : job.payload with
      | none =>
        rw [hpayload] at hfields
        cases hfields
      | some payload =>
        rw [hpayload] at hsha hversion hfilename
        refine ⟨hid, (hkept ?_).trans hfetch, payload, hpayload, hsha, hversion, hfilename⟩
        intro _ _ _ heffect
        cases heffect
  | claiming => obtain rfl | ⟨row, -, -, -, rfl⟩ := claimJob_eq_some hturn <;> trivial
  | adding job source release | pointing job source release =>
    obtain rfl := Option.some.inj hturn
    dsimp only [Turn.goto]
    split <;> trivial
  | _ =>
    obtain rfl := Option.some.inj hturn
    trivial

/-- What the others do leaves alone what a worker itself has read and come to. -/
theorem placeSound_other {p q : Party} {act : Act p} {place : Place p} {turn : Turn (Place p)}
    {there : Place q} (hq : q ≠ p) (hplace : PlaceSound ports s.log q there)
    (h : turnOf ports s.db s.quarantine p act place = some turn) :
    PlaceSound ports (s.commit p turn).log q there := by
  have hlast : lastDecision q (s.commit p turn).log = lastDecision q s.log :=
    lastDecision_commit h fun hpq => absurd hpq.symm hq
  have hfetch : lastFetch q (s.commit p turn).log = lastFetch q s.log :=
    lastFetch_commit h fun hpq => absurd hpq.symm hq
  cases q with
  | ingest worker =>
    cases there with
    | working job source =>
      simp only [PlaceSound, hfetch] at hplace ⊢
      exact hplace
    | finishing job source result =>
      simp only [PlaceSound, hlast] at hplace ⊢
      exact hplace
    | handingOff job source payload =>
      simp only [PlaceSound, hlast] at hplace ⊢
      exact hplace
    | _ => exact hplace
  | signer worker =>
    cases there with
    | publishing job source =>
      simp only [PlaceSound, hfetch] at hplace ⊢
      exact hplace
    | adding job source release =>
      simp only [PlaceSound, hfetch] at hplace ⊢
      exact hplace
    | _ => exact hplace
  | _ => exact hplace

end Places

/-! ## The runs -/

/-- A worker runs only jobs of its own kinds. -/
theorem kinds_invariant (ports : IngestPorts) (quarantine : Quarantine) :
    (parties ports quarantine).Invariant (fun _ _ => True) (fun _ => True)
      fun p _ place => ∀ job, hold p place = some (.running job) → job.kind ∈ kinds p where
  start := trivial
  idle p s job h := by cases p <;> cases h
  own c p act shared place _ _ hL h := by
    obtain ⟨turn, hturn, hcommit⟩ := Option.map_eq_some_iff.mp h
    obtain ⟨rfl, rfl⟩ := Prod.mk.inj hcommit
    refine ⟨trivial, fun job hjob => ?_⟩
    have hcases := turnOf_cases hturn
    generalize turn.statement = statement at hcases
    cases hcases with
    | claim _ _ kind _ hnext =>
      obtain rfl := Hold.running.inj (Option.some.inj (hnext.symm.trans hjob))
      exact kind
    | finish _ _ free => cases free.symm.trans hjob
    | file _ _ hnext => cases hnext.symm.trans hjob
    | keep same _ => exact hL p job (same.symm.trans hjob)
  other c p act shared place q _ _ _ hL _ := hL q

theorem kind_of_running {ports : IngestPorts} {quarantine : Quarantine} {c : QueueConfig}
    (hc : (system ports quarantine).Reachable c) {p : Party} {job : QueueJob}
    (hjob : hold p (c.place p) = some (.running job)) : job.kind ∈ kinds p :=
  ((kinds_invariant ports quarantine).holds (hc.to_when fun _ _ => trivial)).2 p job hjob

theorem mem_of_lastFetch {p : Party} {log : Log} {job : QueueJob} {source : Source}
    (h : lastFetch p log = some (job, source)) : (p, .effect (.fetched job source)) ∈ log := by
  obtain ⟨⟨q, event⟩, hmem, hevent⟩ := exists_of_latest h
  split at hevent
  next heq =>
    cases heq
    split at hevent
    next hq =>
      cases hevent
      exact hq ▸ hmem
    · cases hevent
  · cases hevent

theorem mem_of_lastDecision {p : Party} {log : Log} {job : QueueJob} {source : Source}
    {polled : Polled} (h : lastDecision p log = some (job, source, polled)) :
    (p, .effect (.decided job source polled)) ∈ log := by
  obtain ⟨⟨q, event⟩, hmem, hevent⟩ := exists_of_latest h
  split at hevent
  next heq =>
    cases heq
    split at hevent
    next hq =>
      cases hevent
      exact hq ▸ hmem
    · cases hevent
  · cases hevent

/-- A job that agrees with a queued publish job was approved. -/
theorem approved_of_known {ports : IngestPorts} {log : Log}
    (hlog : Justified (EventSound ports) log) {job : QueueJob} {payload : PublishPayload}
    (hjob : Known log job) (hkind : job.kind = .PUBLISH) (hpayload : job.payload = some payload) :
    ∃ worker poll source polled, (.ingest worker, .effect (.decided poll source polled)) ∈ log ∧
      poll.sourceId = job.sourceId ∧
      Approves polled payload.sha256 payload.version payload.filename := by
  obtain ⟨p, row, hrow, hfixed⟩ := hjob
  obtain ⟨-, hsource, hkind', hpayload'⟩ := Job.fixed_inj.mp hfixed
  obtain ⟨newer, older, rfl⟩ := List.append_of_mem hrow
  obtain ⟨worker, poll, source, polled, found, rfl, hlast, hpoll, hfound, happroves⟩ :=
    hlog.of_append (hkind'.trans hkind)
  obtain rfl := Option.some.inj ((hfound.symm.trans hpayload').trans hpayload)
  exact ⟨worker, poll, source, polled, by simp [mem_of_lastDecision hlast], hpoll.trans hsource,
    happroves⟩

section Turns

variable {ports : IngestPorts} {s : Shared} {p : Party} {act : Act p} {place : Place p}
  {turn : Turn (Place p)}

/-- What a turn adds to the log is sound. -/
theorem eventSound_turn
    (hheld : ∀ job, hold p place = some (.running job) → Known s.log job ∧ job.kind ∈ kinds p)
    (hlog : Justified (EventSound ports) s.log) (hplace : PlaceSound ports s.log p place)
    (h : turnOf ports s.db s.quarantine p act place = some turn) :
    Justified (EventSound ports) (s.commit p turn).log := by
  obtain hsame | ⟨event, hevent, hnew⟩ | ⟨effect, heffect, hnew⟩ := commit_log h
  · exact hsame ▸ hlog
  · refine hnew ▸ hlog.cons ?_
    cases event with
    | claimed job stored => trivial
    | effect effect => exact absurd hevent eventOf_ne_effect
    | enqueued job =>
      intro hkind
      rw [eventOf_eq_enqueued] at hevent
      cases p with
      | ingest worker =>
        obtain hpoll | ⟨poll, source, payload, rfl, -, hsource, hpayload⟩ :=
          ingestTurn_inserted h hevent
        · cases hkind.symm.trans hpoll
        · obtain ⟨hid, polled, hlast, happroves⟩ := hplace
          exact ⟨worker, poll, source, polled, payload, rfl, hlast, hid.symm.trans hsource.symm,
            hpayload, happroves⟩
      | signer worker => cases (signerTurn_inserted h).symm.trans hevent
      | request id =>
        obtain rfl := Option.some.inj h
        exact absurd hkind (adminTurn_inserted hevent).1
      | ceremony =>
        obtain rfl := Option.some.inj h
        cases hevent
  · refine hnew ▸ hlog.cons ?_
    cases p with
    | ingest worker =>
      obtain ⟨-, job, source, ⟨-, hsource, -, rfl⟩ | ⟨polled, rfl, rfl, hpollable, hpoll⟩⟩ :=
        ingestTurn_effect h heffect
      · exact Store.id_of_getSource hsource
      · exact ⟨hplace.2, hpollable, _, _, _, hpoll⟩
    | signer worker =>
      obtain ⟨-, job, source, ⟨-, hsource, -, rfl⟩ | ⟨release, rfl, rfl⟩⟩ :=
        signerTurn_effect h heffect
      · exact Store.id_of_getSource hsource
      · obtain ⟨hid, hfetch, payload, hpayload, hsha, hversion, hfilename⟩ := hplace
        obtain ⟨hknown, hkind⟩ := hheld job rfl
        obtain ⟨worker, poll, row, polled, hdecided, hpoll, happroves⟩ :=
          approved_of_known hlog hknown (List.mem_singleton.mp hkind) hpayload
        exact ⟨hfetch, worker, poll, row, polled, hdecided, hpoll.trans hid.symm,
          hsha ▸ hversion ▸ hfilename ▸ happroves⟩
    | request id =>
      obtain rfl := Option.some.inj h
      cases adminTurn_effect.symm.trans heffect
    | ceremony =>
      obtain rfl := Option.some.inj h
      cases heffect

theorem placeSound_own (hplace : PlaceSound ports s.log p place)
    (h : turnOf ports s.db s.quarantine p act place = some turn) :
    PlaceSound ports (s.commit p turn).log p turn.next := by
  cases p with
  | ingest worker => exact placeSound_ingest hplace h
  | signer worker => exact placeSound_signer hplace h
  | request id => trivial
  | ceremony => trivial

end Turns

/-- The jobs the workers hold are queued jobs of their own kinds. -/
def HeldSound (c : QueueConfig) : Prop :=
  ∀ p job, hold p (c.place p) = some (.running job) →
    Known c.shared.log job ∧ job.kind ∈ kinds p

theorem heldSound {ports : IngestPorts} {quarantine : Quarantine} {c : QueueConfig}
    (hc : (system ports quarantine).Reachable c) : HeldSound c :=
  fun p _ hjob => ⟨(accounted hc).2 p _ hjob, kind_of_running hc hjob⟩

theorem sound_invariant (ports : IngestPorts) (quarantine : Quarantine) :
    (parties ports quarantine).Invariant (fun c _ => True ∧ HeldSound c)
      (fun s => Justified (EventSound ports) s.log)
      (fun p s place => PlaceSound ports s.log p place) where
  start := trivial
  idle p s := by cases p <;> trivial
  own c p _ shared place hok hI hL h := by
    obtain ⟨turn, hturn, hcommit⟩ := Option.map_eq_some_iff.mp h
    obtain ⟨rfl, rfl⟩ := Prod.mk.inj hcommit
    exact ⟨eventSound_turn (hok.2 p) hI (hL p) hturn, placeSound_own (hL p) hturn⟩
  other c p act shared place q hq _ _ hL h := by
    obtain ⟨turn, hturn, hcommit⟩ := Option.map_eq_some_iff.mp h
    obtain ⟨rfl, rfl⟩ := Prod.mk.inj hcommit
    exact placeSound_other hq (hL q) hturn

theorem sound {ports : IngestPorts} {quarantine : Quarantine} {c : QueueConfig}
    (hc : (system ports quarantine).Reachable c) :
    Justified (EventSound ports) c.shared.log ∧
      ∀ p, PlaceSound ports c.shared.log p (c.place p) :=
  (sound_invariant ports quarantine).holds
    ((hc.to_when fun _ _ => trivial).when_and fun _ h => heldSound h.of_when)

/-- What every run keeps, whatever its steps. -/
structure Standing (ports : IngestPorts) (c : QueueConfig) : Prop where
  accounted : Accounted c.shared
  known : ∀ p held, hold p (c.place p) = some held → Known c.shared.log held.job
  log : Justified (EventSound ports) c.shared.log
  places : ∀ p, PlaceSound ports c.shared.log p (c.place p)

theorem standing {ports : IngestPorts} {quarantine : Quarantine} {c : QueueConfig}
    (hc : (system ports quarantine).Reachable c) : Standing ports c :=
  ⟨(accounted hc).1, (accounted hc).2, (sound hc).1, (sound hc).2⟩

/-! ## A release of the editor, from its registration to the signature -/

section Editor

open Ingest (ForgeAnswers editorAnswers editorPorts editorSource emptySha256)
open Registry (JobKind JobState)

def editorForge (tag : String) : ForgeAnswers :=
  { editorAnswers tag with
    project := .ok (some (.obj [("id", .int 7), ("owner", .obj [("id", .int 8)])])) }

/-- A turn of an ingest worker, which may claim `job`. -/
def ingestMove (worker : Nat) (now : Nat) (job : Option QueueJob) : QueueMove :=
  .turn (.ingest worker)
    ⟨now, [], none, none, job, editorForge "v1.0", ["malware", "publisher", "sbom"]⟩

def requestMove (id : Nat) (request : Admin.Request) : QueueMove :=
  .turn (.request id) ⟨0, "alice", request⟩

def signerMove (worker : Nat) (job : Option QueueJob) : QueueMove :=
  .turn (.signer worker) ⟨0, job, ["app-editor"], .ok (), .ok ()⟩

def queuedJob (id : JobId) (kind : JobKind) (requestedBy : String)
    (payload : Option PublishPayload) : QueueJob where
  id := id
  sourceId := 1
  kind := kind
  state := .QUEUED
  requestedBy := requestedBy
  requestedAt := 0
  startedAt := none
  finishedAt := none
  attempts := 0
  payload := payload
  result := none
  error := none

/-- Registered, validated by worker 0, and activated. -/
def registration : List QueueMove :=
  List.replicate 3 (requestMove 0 (.create editorSource)) ++
    [none, none, some (queuedJob 1 .VALIDATE "alice" none), none, none, none, none].map
      (ingestMove 0 0) ++
    [.turn .ceremony "editor"]

/-- A poll that an operator asks for, up to the record that worker 0 writes. -/
def polling : List QueueMove :=
  List.replicate 2 (requestMove 1 (.act 1 .poll)) ++
    [none, none, some (queuedJob 2 .POLL "alice" none), none, none, none].map (ingestMove 0 0)

/-- The hand-off, and the work of signer 0. -/
def signing : List QueueMove :=
  ingestMove 0 0 none ::
    [none, some (queuedJob 3 .PUBLISH "ingest" (some ⟨emptySha256, "1.0", "editor.zip", "v1.0"⟩)),
      none, none, none, none, none].map (signerMove 0)

def editorParties : Parties Party Shared Place Act := parties editorPorts ⟨1000, []⟩

/-- What a run of the editor's system ends with. -/
def endOf (moves : List QueueMove) : Option QueueConfig :=
  System.exec editorParties.next moves editorParties.initial

theorem reachable_endOf {moves : List QueueMove} {c : QueueConfig} (h : endOf moves = some c) :
    (system editorPorts ⟨1000, []⟩).Reachable c :=
  System.reachable_exec (.start rfl) h

def jobStates (c : QueueConfig) : List (JobId × JobKind × JobState) :=
  c.shared.db.jobs.map fun job => (job.id, job.kind, job.state)

end Editor

/-! ## The result -/

/-- A worker came to the outcome on the row of the job's source that it had read. -/
structure Decided (ports : IngestPorts) (log : Log) (p : Party) (job : QueueJob) (source : Source)
    (polled : Polled) : Prop where
  read : ∃ newer older, log = newer ++ (p, .effect (.decided job source polled)) :: older ∧
    lastFetch p older = some (job, source)
  id : source.id = job.sourceId
  polls : Polls ports source polled

/-- What a run says about signing, in any state it reaches. -/
structure SignedImpliesApproved (ports : IngestPorts) (quarantine : Quarantine)
    (c : QueueConfig) : Prop where
  /-- A publish job was queued by a worker whose latest outcome, of a poll of the same source,
  promoted exactly what the job names. -/
  published : ∀ newer p job older, c.shared.log = newer ++ (p, .enqueued job) :: older →
    job.kind = .PUBLISH → ∃ worker poll source polled payload, p = .ingest worker ∧
      lastDecision p older = some (poll, source, polled) ∧
      Decided ports older p poll source polled ∧
      poll.sourceId = job.sourceId ∧ job.payload = some payload ∧
      Approves polled payload.sha256 payload.version payload.filename
  /-- A release was promoted, by a poll of the same source, before it was added; the signer too
  goes by the row that it read for its job. -/
  released : ∀ newer p job source key artifact older,
    c.shared.log = newer ++ (p, .effect (.added job source key artifact)) :: older →
    lastFetch p older = some (job, source) ∧ ∃ worker poll row polled,
      Decided ports older (.ingest worker) poll row polled ∧ row.id = source.id ∧
      Approves polled (ports.lib.sha256 artifact) key.version key.filename
  /-- A row that was read is the one that the table held for the job at that moment of the run. -/
  stored : ∀ newer p job source older,
    c.shared.log = newer ++ (p, .effect (.fetched job source)) :: older →
    ∃ c₀, (system ports quarantine).Reachable c₀ ∧ (system ports quarantine).Leads c₀ c ∧
      c₀.shared.log = older ∧ c₀.shared.db.getSource job.sourceId = some source
  ingests : ∀ worker job, hold (.ingest worker) (c.place (.ingest worker)) =
    some (.running job) → job.kind = .VALIDATE ∨ job.kind = .POLL
  signs : ∀ worker job, hold (.signer worker) (c.place (.signer worker)) =
    some (.running job) → job.kind = .PUBLISH

theorem decided_of_mem {ports : IngestPorts} {log : Log} (hlog : Justified (EventSound ports) log)
    {p : Party} {job : QueueJob} {source : Source} {polled : Polled}
    (h : (p, .effect (.decided job source polled)) ∈ log) :
    Decided ports log p job source polled := by
  obtain ⟨newer, older, rfl⟩ := List.append_of_mem h
  obtain ⟨hfetch, hpolls⟩ := hlog.of_append
  obtain ⟨between, rest, rfl⟩ := List.append_of_mem (mem_of_lastFetch hfetch)
  have hid : source.id = job.sourceId := hlog.older.2.of_append
  exact ⟨⟨newer, _, rfl, hfetch⟩, hid, hpolls⟩

theorem source_of_fetched {ports : IngestPorts} {s : Shared} {p : Party} {act : Act p}
    {place : Place p} {turn : Turn (Place p)} {job : QueueJob} {source : Source}
    (h : turnOf ports s.db s.quarantine p act place = some turn)
    (heffect : turn.effect = some (.fetched job source)) :
    s.db.getSource job.sourceId = some source := by
  cases p with
  | ingest worker =>
    obtain ⟨-, _, _, ⟨-, hsource, -, hfetched⟩ | ⟨_, -, hdecided, -⟩⟩ := ingestTurn_effect h heffect
    · obtain ⟨rfl, rfl⟩ := Effect.fetched.inj hfetched
      exact hsource
    · cases hdecided
  | signer worker =>
    obtain ⟨-, _, _, ⟨-, hsource, -, hfetched⟩ | ⟨_, -, hadded⟩⟩ := signerTurn_effect h heffect
    · obtain ⟨rfl, rfl⟩ := Effect.fetched.inj hfetched
      exact hsource
    · cases hadded
  | request id =>
    obtain rfl := Option.some.inj h
    cases adminTurn_effect.symm.trans heffect
  | ceremony =>
    obtain rfl := Option.some.inj h
    cases heffect

theorem stored_of_fetched {ports : IngestPorts} {quarantine : Quarantine} {c : QueueConfig}
    (hc : (system ports quarantine).Reachable c) {newer : Log} {p : Party} {job : QueueJob}
    {source : Source} {older : Log}
    (hlog : c.shared.log = newer ++ (p, .effect (.fetched job source)) :: older) :
    ∃ c₀, (system ports quarantine).Reachable c₀ ∧ (system ports quarantine).Leads c₀ c ∧
      c₀.shared.log = older ∧ c₀.shared.db.getSource job.sourceId = some source := by
  induction hc generalizing newer with
  | start h0 =>
    obtain rfl := h0
    simp [Parties.initial, parties] at hlog
  | @step c move c' hc hstep ih =>
    -- from the state before, unless this turn is the one that read the row
    have hbefore {newer : Log}
        (hold : c.shared.log = newer ++ (p, .effect (.fetched job source)) :: older) :
        ∃ c₀, (system ports quarantine).Reachable c₀ ∧ (system ports quarantine).Leads c₀ c' ∧
          c₀.shared.log = older ∧ c₀.shared.db.getSource job.sourceId = some source := by
      obtain ⟨c₀, hreach, hleads, hrest⟩ := ih hold
      exact ⟨c₀, hreach, .step hleads hstep, hrest⟩
    cases move with
    | crash q =>
      obtain rfl := Parties.next_crash hstep
      exact hbefore hlog
    | turn q act =>
      obtain ⟨shared, place, hmoved, rfl⟩ := Parties.next_turn hstep
      obtain ⟨turn, hturn, hcommit⟩ := Option.map_eq_some_iff.mp hmoved
      obtain ⟨rfl, rfl⟩ := Prod.mk.inj hcommit
      obtain hsame | ⟨event, hevent, hnew⟩ | ⟨effect, heffect, hnew⟩ := commit_log hturn
      · exact hbefore (hsame ▸ hlog)
      · cases newer with
        | nil =>
          obtain ⟨hhead, -⟩ := List.cons.inj (hnew.symm.trans hlog)
          obtain ⟨rfl, rfl⟩ := Prod.mk.inj hhead
          exact absurd hevent eventOf_ne_effect
        | cons first newer => exact hbefore (List.cons.inj (hnew.symm.trans hlog)).2
      · cases newer with
        | nil =>
          obtain ⟨hhead, hrest⟩ := List.cons.inj (hnew.symm.trans hlog)
          obtain ⟨rfl, hfetched⟩ := Prod.mk.inj hhead
          obtain rfl := Event.effect.inj hfetched
          exact ⟨c, hc, .step (.refl c) hstep, hrest, source_of_fetched hturn heffect⟩
        | cons first newer => exact hbefore (List.cons.inj (hnew.symm.trans hlog)).2

/-- Over every interleaving of the workers, the operators and the ceremony tool, with any
answers of the forges and any crashes. -/
theorem signed_implies_approved {ports : IngestPorts} {quarantine : Quarantine}
    {c : QueueConfig} (hc : (system ports quarantine).Reachable c) :
    SignedImpliesApproved ports quarantine c := by
  obtain ⟨hlog, -⟩ := sound hc
  refine ⟨?published, ?released, fun _ _ _ _ _ => stored_of_fetched hc, ?ingests, ?signs⟩
  case published =>
    intro newer p job older hsplit hkind
    rw [hsplit] at hlog
    obtain ⟨worker, poll, source, polled, payload, hp, hlast, hrest⟩ := hlog.of_append hkind
    exact ⟨worker, poll, source, polled, payload, hp, hlast,
      decided_of_mem hlog.older.2 (mem_of_lastDecision hlast), hrest⟩
  case released =>
    intro newer p job source key artifact older hsplit
    rw [hsplit] at hlog
    obtain ⟨hfetch, worker, poll, row, polled, hmem, hpoll, happroves⟩ := hlog.of_append
    have hdecided := decided_of_mem hlog.older.2 hmem
    exact ⟨hfetch, worker, poll, row, polled, hdecided, hdecided.id.trans hpoll, happroves⟩
  case ingests =>
    intro worker job hjob
    simpa [kinds] using kind_of_running hc hjob
  case signs =>
    intro worker job hjob
    simpa [kinds, Sign.CLAIMS] using kind_of_running hc hjob

theorem signed_implies_approved_editor :
    ∃ c, (endOf (registration ++ polling ++ signing)).map jobStates = some
        [(1, .VALIDATE, .DONE), (2, .POLL, .DONE), (3, .PUBLISH, .DONE)] ∧
      endOf (registration ++ polling ++ signing) = some c ∧
      SignedImpliesApproved Ingest.editorPorts ⟨1000, []⟩ c := by
  have hstates : (endOf (registration ++ polling ++ signing)).map jobStates = some
      [(1, .VALIDATE, .DONE), (2, .POLL, .DONE), (3, .PUBLISH, .DONE)] := by
    decide +kernel
  obtain ⟨c, hc, -⟩ := Option.map_eq_some_iff.mp hstates
  exact ⟨c, hstates, hc, signed_implies_approved (reachable_endOf hc)⟩

end DistPlatform.Queue
