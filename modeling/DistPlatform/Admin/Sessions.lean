import DistPlatform.Admin.Accounts
import DistPlatform.Library.History
import DistPlatform.Library.Parties

/-!
# Logging in, and what a login allows (`dist_admin.app`, `dist_admin.operators`)

Any number of requests, starts of the application and runs of the command line tool, interleaved
statement by statement from an empty database. The log is no part of the program: it remembers
what the theorems speak about, newest first. `R` is what a form asks for.

## Main definitions

* `SiteAct`, `SitePlace`, `siteTurn` — the programs.
* `Site`, `site` — the tables with the log, and the system.
* `accountAt`, `about` — what the log says about an operator and about a session.
* `Sound` — what has gone before an event.
-/

namespace DistPlatform.Admin

open DistPlatform
open Runs History

/-! ## The programs -/

inductive OperatorsCommand
  | add
  | passwd
  deriving DecidableEq, Repr

def OperatorsCommand.action : OperatorsCommand → String
  | .add => "operator.add"
  | .passwd => "operator.passwd"

/-- Where a password comes from. -/
inductive PasswordSource
  | bootstrap
  | operators (command : OperatorsCommand)
  deriving DecidableEq, Repr

/-- What is remembered of a run; `P` are the requests and processes. -/
inductive SiteEvent (P : Type)
  /-- There was no operator when the application started. -/
  | counted (p : P)
  /-- The command line tool found the operator, or did not. -/
  | found (p : P) (username : String) (exist : Bool)
  | put (p : P) (username : String) (passwordHash salt : Bytes) (source : PasswordSource)
  | disabled (username : String) (flag : Bool)
  /-- `authenticate` answered `True`. -/
  | passed (p : P) (username password : String)
  | opened (p : P) (tokenSha256 : Bytes) (username csrf : String) (begun : Nat)
  | ended (tokenSha256 : Bytes)
  | purged (now : Nat)
  /-- A request with the cookie was let in. `csrf` is what its form carried, `none` where it sent
  no form. -/
  | admitted (p : P) (token : String) (operator : Operator) (csrf : Option String) (now : Nat)
  deriving DecidableEq

/-- What a request or a process does next. -/
inductive SitePlace (R : Type)
  | idle
  | rejected (username : String)
  | accepted (username : String)
  | begun (username : String)
  | bootstrapping (password : String)
  | bootstrapped
  | purging
  | prompting (command : OperatorsCommand) (username : String)
  | updated (command : OperatorsCommand) (username : String)
  | handling (operator : Operator) (request : R)

/-- What `secrets`, the clock and the keyboard answer while a program goes on. -/
structure Input where
  token : String
  csrf : String
  salt : Bytes
  now : Nat
  typed : Option String

inductive SiteAct (R : Type)
  | start (bootstrapPassword : Option String)
  | login (username password : String)
  | logout (cookie : Option String)
  | view (cookie : Option String) (now : Nat)
  | submit (cookie csrf : Option String) (request : R) (now : Nat)
  | operators (command : OperatorsCommand) (username : String)
  | disable (username : String) (flag : Bool)
  | proceed (input : Input)

structure Site (P : Type) where
  accounts : Accounts
  log : List (SiteEvent P)
  deriving DecidableEq

namespace Site

variable {P : Type} (s : Site P)

def note (event : SiteEvent P) : Site P := { s with log := event :: s.log }

def auditing (actor action : String) (detail : List (String × String)) : Site P :=
  { s with accounts := s.accounts.auditing actor action detail }

end Site

def MIN_PASSWORD_LENGTH : Nat := 12

section Programs

variable {P R : Type} (hashing : Hashing) (p : P) (s : Site P)

/-- A statement of a program that is under way. -/
def proceedTurn (input : Input) : SitePlace R → Option (Site P × SitePlace R)
  | .idle => none
  | .rejected username =>
    some (s.auditing username "login.failed" [("outcome", "rejected")], .idle)
  | .accepted username =>
    let tokenSha256 := tokenDigest hashing input.token
    match s.accounts.createSession tokenSha256 username input.csrf
        (input.now + SESSION_LIFETIME) with
    | .error _ => some (s, .idle)
    | .ok accounts => some
      (⟨accounts, .opened p tokenSha256 username input.csrf input.now :: s.log⟩, .begun username)
  | .begun username => some (s.auditing username "login.succeeded" [], .idle)
  | .bootstrapping password =>
    let passwordHash := hashing.scrypt password input.salt
    some (⟨s.accounts.putOperator "admin" passwordHash input.salt,
      .put p "admin" passwordHash input.salt .bootstrap :: s.log⟩, .bootstrapped)
  | .bootstrapped =>
    some (s.auditing "system" "operator.bootstrap" [("username", "admin")], .purging)
  | .purging =>
    some (⟨s.accounts.purgeExpiredSessions input.now, .purged input.now :: s.log⟩, .idle)
  | .prompting command username =>
    match input.typed with
    | none => some (s, .idle)
    | some password =>
      if password.length < MIN_PASSWORD_LENGTH then some (s, .idle)
      else
        let passwordHash := hashing.scrypt password input.salt
        some (⟨s.accounts.putOperator username passwordHash input.salt,
          .put p username passwordHash input.salt (.operators command) :: s.log⟩,
          .updated command username)
  | .updated command username =>
    some (s.auditing "cli" command.action [("username", username)], .idle)
  | .handling _ _ => some (s, .idle)

/-- The first statement of a program. The handlers of a form read its source before they check
the token; that reads nothing of these tables. -/
def beginTurn : SiteAct R → Option (Site P × SitePlace R)
  | .start none => some (s, .purging)
  | .start (some password) =>
    if s.accounts.operatorCount > 0 then some (s, .purging)
    else some (s.note (.counted p), .bootstrapping password)
  | .login username password =>
    if authenticate hashing s.accounts username password then
      some (s.note (.passed p username password), .accepted username)
    else some (s, .rejected username)
  | .logout cookie =>
    match cookie with
    | none | some "" => some (s, .idle)
    | some token => some (⟨endSession hashing s.accounts cookie,
        .ended (tokenDigest hashing token) :: s.log⟩, .idle)
  | .view cookie now =>
    match currentOperator hashing s.accounts cookie now with
    | none => some (s, .idle)
    | some operator => some (s.note (.admitted p (cookie.getD "") operator none now), .idle)
  | .submit cookie csrf request now =>
    match currentOperator hashing s.accounts cookie now with
    | none => some (s, .idle)
    | some operator =>
      match checkCsrf operator csrf with
      | .error _ => some (s, .idle)
      | .ok () =>
        -- a form without the field is read as one with an empty field
        some (s.note (.admitted p (cookie.getD "") operator (some (csrf.getD "")) now),
          .handling operator request)
  | .operators command username =>
    -- `add needs a username`
    if username = "" then some (s, .idle)
    else
      let exist := (s.accounts.getOperator username).isSome
      let found := s.note (.found p username exist)
      match command, exist with
      | .add, true | .passwd, false => some (found, .idle)
      | _, _ => some (found, .prompting command username)
  | .disable username flag =>
    if (s.accounts.getOperator username).isSome then
      some (⟨s.accounts.disable username flag, .disabled username flag :: s.log⟩, .idle)
    else some (s, .idle)
  | .proceed _ => none

def siteTurn (act : SiteAct R) (place : SitePlace R) : Option (Site P × SitePlace R) :=
  match act, place with
  | .proceed input, place => proceedTurn hashing p s input place
  | act, .idle => beginTurn hashing p s act
  | _, _ => none

end Programs

section System

variable (P R : Type) [DecidableEq P] (hashing : Hashing)

abbrev SiteConfig := Config P (Site P) fun _ => SitePlace R

def site : Parties P (Site P) (fun _ => SitePlace R) (fun _ => SiteAct R) where
  init := ⟨.empty, []⟩
  idle _ := .idle
  turn p act s place := siteTurn hashing p s act place

end System

/-! ## What the log says -/

section Log

variable {P : Type}

def stored (username : String) : SiteEvent P → Option (Bytes × Bytes)
  | .put _ name passwordHash salt _ => if name = username then some (passwordHash, salt) else none
  | _ => none

def flagged (username : String) : SiteEvent P → Option Bool
  | .disabled name flag => if name = username then some flag else none
  | _ => none

/-- The operator, with the password that was put last and the flag that was set last. -/
def accountAt (username : String) (log : List (SiteEvent P)) : Option OperatorRow :=
  (latest (stored username) log).map fun stored =>
    ⟨username, stored.1, stored.2, (latest (flagged username) log).getD false⟩

/-- The session that the event opens under the digest, or that it has ended. -/
def about (tokenSha256 : Bytes) : SiteEvent P → Option (Option SessionRow)
  | .opened _ digest username csrf begun =>
    if digest = tokenSha256 then some (some ⟨digest, username, csrf, begun + SESSION_LIFETIME⟩)
    else none
  | .ended digest => if digest = tokenSha256 then some none else none
  | _ => none

/-- What the party has done on the way to a write. -/
def saidBy [DecidableEq P] (p : P) : SiteEvent P → Option (SiteEvent P)
  | .counted q => if q = p then some (.counted q) else none
  | .found q username exist => if q = p then some (.found q username exist) else none
  | .put q username passwordHash salt source =>
    if q = p then some (.put q username passwordHash salt source) else none
  | .passed q username password => if q = p then some (.passed q username password) else none
  | .opened q digest username csrf begun =>
    if q = p then some (.opened q digest username csrf begun) else none
  | _ => none

variable [DecidableEq P] (hashing : Hashing)

/-- What has gone before an event. -/
def Sound (event : SiteEvent P) (older : List (SiteEvent P)) : Prop :=
  match event with
  | .counted _ => ∀ username, accountAt username older = none
  | .found _ username exist => (accountAt username older).isSome = exist
  | .put p username _ _ .bootstrap =>
    username = "admin" ∧ latest (saidBy p) older = some (.counted p)
  | .put p username passwordHash salt (.operators command) =>
    latest (saidBy p) older = some (.found p username (command == .passwd)) ∧
      ∃ password : String, 12 ≤ password.length ∧ hashing.scrypt password salt = passwordHash
  | .passed _ username password => ∃ account, accountAt username older = some account ∧
      account.disabled = false ∧ hashing.scrypt password account.salt = account.passwordHash
  | .opened p _ username _ _ =>
    ∃ password, latest (saidBy p) older = some (.passed p username password)
  | .admitted _ token operator csrf now => ∃ row,
      latest (about (tokenDigest hashing token)) older = some (some row) ∧
      operator = ⟨row.username, row.csrfToken⟩ ∧ now < row.expiresAt ∧
      (∃ account, accountAt row.username older = some account ∧ account.disabled = false) ∧
      ∀ text ∈ csrf, text = row.csrfToken ∧ text ≠ ""
  | _ => True

end Log

/-! ## The tables and the log -/

section Tables

variable {P : Type} {p : P} {s : Site P}

/-- The operators are what the log says. -/
structure Accounted (s : Site P) : Prop where
  operators : ∀ username, s.accounts.getOperator username = accountAt username s.log
  unflagged : ∀ username, latest (stored username) s.log = none →
    latest (flagged username) s.log = none

/-- So are the sessions, but for those that were purged when they had expired. -/
structure Kept (s : Site P) : Prop where
  sessions : ∀ row ∈ s.accounts.sessions, latest (about row.tokenSha256) s.log = some (some row)
  present : ∀ digest row, latest (about digest) s.log = some (some row) →
    row ∈ s.accounts.sessions ∨ ∃ now, .purged now ∈ s.log ∧ row.expiresAt ≤ now
  distinct : (s.accounts.sessions.map (·.tokenSha256)).Nodup

theorem account_iff_put {username : String} {log : List (SiteEvent P)} :
    (accountAt username log).isSome ↔ ∃ p passwordHash salt source,
      .put p username passwordHash salt source ∈ log := by
  rw [accountAt, Option.isSome_map]
  constructor
  · intro h
    obtain ⟨pair, hlast⟩ := Option.isSome_iff_exists.mp h
    obtain ⟨event, hmem, hstored⟩ := exists_of_latest hlast
    cases event with
    | put p name passwordHash salt source =>
      simp only [stored, Option.ite_none_right_eq_some] at hstored
      obtain ⟨rfl, -⟩ := hstored
      exact ⟨p, passwordHash, salt, source, hmem⟩
    | _ => cases hstored
  · rintro ⟨p, passwordHash, salt, source, hmem⟩
    refine latest_isSome hmem ?_
    simp [stored]

theorem opened_of_about {digest : Bytes} {event : SiteEvent P} {row : SessionRow}
    (h : about digest event = some (some row)) : ∃ q begun,
      event = .opened q digest row.username row.csrfToken begun ∧
        row.expiresAt = begun + SESSION_LIFETIME := by
  cases event with
  | opened q digest' username csrf begun =>
    simp only [about, Option.ite_none_right_eq_some, Option.some.injEq] at h
    obtain ⟨rfl, rfl⟩ := h
    exact ⟨q, begun, rfl, rfl⟩
  | ended =>
    simp only [about] at h
    split at h <;> cases h
  | _ => cases h

theorem tokenSha256_of_about {digest : Bytes} {log : List (SiteEvent P)} {row : SessionRow}
    (h : latest (about digest) log = some (some row)) : row.tokenSha256 = digest := by
  obtain ⟨event, -, hsaid⟩ := exists_of_latest h
  obtain ⟨q, begun, rfl, -⟩ := opened_of_about hsaid
  have hrow := Option.some.inj (Option.some.inj ((if_pos rfl).symm.trans hsaid))
  exact (congrArg SessionRow.tokenSha256 hrow).symm

/-- An event that says nothing about operators, with a statement that leaves them as they are. -/
theorem Accounted.cons (h : Accounted s) {accounts : Accounts} {event : SiteEvent P}
    (hsame : ∀ username, accounts.getOperator username = s.accounts.getOperator username)
    (hstored : ∀ username, stored username event = none)
    (hflagged : ∀ username, flagged username event = none) :
    Accounted ⟨accounts, event :: s.log⟩ where
  operators username := by
    rw [hsame, h.operators, accountAt, accountAt, latest_cons_of_none (hstored username),
      latest_cons_of_none (hflagged username)]
  unflagged username hnone := by
    rw [latest_cons_of_none (hstored username)] at hnone
    rw [latest_cons_of_none (hflagged username)]
    exact h.unflagged username hnone

/-- An event that says nothing about sessions, with a statement that leaves them as they are. -/
theorem Kept.cons (h : Kept s) {accounts : Accounts} {event : SiteEvent P}
    (hsame : accounts.sessions = s.accounts.sessions)
    (habout : ∀ digest, about digest event = none) : Kept ⟨accounts, event :: s.log⟩ where
  sessions row hmem := by
    rw [latest_cons_of_none (habout _)]
    exact h.sessions row (hsame ▸ hmem)
  present digest row hlast := by
    rw [latest_cons_of_none (habout _)] at hlast
    obtain hmem | ⟨now, hpurged, hexpired⟩ := h.present digest row hlast
    · exact .inl (show row ∈ accounts.sessions from hsame ▸ hmem)
    · exact .inr ⟨now, List.mem_cons_of_mem _ hpurged, hexpired⟩
  distinct := by
    rw [hsame]
    exact h.distinct

theorem Accounted.put (h : Accounted s) {username : String} {passwordHash salt : Bytes}
    {source : PasswordSource} :
    Accounted ⟨s.accounts.putOperator username passwordHash salt,
      .put p username passwordHash salt source :: s.log⟩ := by
  have hstored (other : String) :
      latest (stored other) (.put p username passwordHash salt source :: s.log) =
        if username = other then some (passwordHash, salt) else latest (stored other) s.log :=
    latest_cons_ite (f := stored other) rfl _
  refine ⟨fun other => ?_, fun other hnone => ?_⟩
  · rw [Accounts.getOperator_putOperator, accountAt, hstored, latest_cons_of_none rfl]
    by_cases heq : other = username
    · subst heq
      rw [if_pos rfl, if_pos rfl, Option.map_some, h.operators, accountAt]
      cases hlast : latest (stored other) s.log with
      | none => rw [h.unflagged other hlast]; rfl
      | some pair => rfl
    · rw [if_neg heq, if_neg (Ne.symm heq), h.operators]
      rfl
  · rw [hstored] at hnone
    split at hnone
    · cases hnone
    · exact h.unflagged other hnone

theorem Accounted.disabled (h : Accounted s) {username : String} {flag : Bool}
    (hpresent : (s.accounts.getOperator username).isSome) :
    Accounted ⟨s.accounts.disable username flag, .disabled username flag :: s.log⟩ := by
  have hflagged (other : String) :
      latest (flagged other) (SiteEvent.disabled username flag :: s.log) =
        if username = other then some flag else latest (flagged other) s.log :=
    latest_cons_ite (f := flagged other) rfl _
  refine ⟨fun other => ?_, fun other hnone => ?_⟩
  · rw [Accounts.getOperator_disable, accountAt, latest_cons_of_none (f := stored other) rfl, hflagged]
    by_cases heq : other = username
    · subst heq
      rw [if_pos rfl, if_pos rfl, h.operators, accountAt, Option.map_map]
      rfl
    · rw [if_neg heq, if_neg (Ne.symm heq), h.operators]
      rfl
  · rw [latest_cons_of_none rfl] at hnone
    rw [hflagged]
    split
    next heq =>
      -- only an operator that is there is flagged
      subst heq
      rw [h.operators, accountAt, hnone] at hpresent
      cases hpresent
    · exact h.unflagged other hnone

theorem Kept.opened (h : Kept s) {digest : Bytes} {username csrf : String} {begun : Nat}
    {accounts : Accounts}
    (hcreated : s.accounts.createSession digest username csrf (begun + SESSION_LIFETIME) =
      .ok accounts) :
    Kept ⟨accounts, .opened p digest username csrf begun :: s.log⟩ := by
  obtain ⟨hfree, -, rfl⟩ := Accounts.createSession_eq_ok.mp hcreated
  have habout (other : Bytes) :
      latest (about other) (SiteEvent.opened p digest username csrf begun :: s.log) =
        if digest = other then some (some ⟨digest, username, csrf, begun + SESSION_LIFETIME⟩)
        else latest (about other) s.log :=
    latest_cons_ite (f := about other) rfl _
  refine ⟨fun row hmem => ?_, fun other row hlast => ?_, ?_⟩
  · rw [habout]
    obtain hold | hnew := List.mem_append.mp hmem
    · rw [if_neg (Ne.symm (hfree row hold))]
      exact h.sessions row hold
    · obtain rfl := List.mem_singleton.mp hnew
      exact if_pos rfl
  · rw [habout] at hlast
    split at hlast
    · obtain rfl := Option.some.inj (Option.some.inj hlast)
      exact .inl (List.mem_append_right _ List.mem_cons_self)
    · obtain hmem | ⟨now, hpurged, hexpired⟩ := h.present other row hlast
      · exact .inl (List.mem_append_left _ hmem)
      · exact .inr ⟨now, List.mem_cons_of_mem _ hpurged, hexpired⟩
  · simp only [List.map_append, List.map_cons, List.map_nil, List.nodup_append]
    refine ⟨h.distinct, List.nodup_cons.mpr ⟨List.not_mem_nil, .nil⟩,
      fun other hother new hnew => ?_⟩
    obtain ⟨row, hrow, rfl⟩ := List.mem_map.mp hother
    rw [List.mem_singleton.mp hnew]
    exact hfree row hrow

theorem Kept.ended (h : Kept s) (digest : Bytes) :
    Kept ⟨s.accounts.deleteSession digest, .ended digest :: s.log⟩ := by
  have habout (other : Bytes) : latest (about other) (SiteEvent.ended digest :: s.log) =
      if digest = other then some none else latest (about other) s.log :=
    latest_cons_ite (f := about other) rfl _
  refine ⟨fun row hmem => ?_, fun other row hlast => ?_, ?_⟩
  · obtain ⟨hmem, hother⟩ := List.mem_filter.mp hmem
    rw [habout, if_neg (Ne.symm (bne_iff_ne.mp hother))]
    exact h.sessions row hmem
  · rw [habout] at hlast
    split at hlast
    · cases hlast
    next hne =>
      obtain hmem | ⟨now, hpurged, hexpired⟩ := h.present other row hlast
      · have hdigest := tokenSha256_of_about hlast
        refine .inl (List.mem_filter.mpr ⟨hmem, bne_iff_ne.mpr ?_⟩)
        exact hdigest ▸ Ne.symm hne
      · exact .inr ⟨now, List.mem_cons_of_mem _ hpurged, hexpired⟩
  · exact h.distinct.sublist (List.filter_sublist.map _)

theorem Kept.purged (h : Kept s) (now : Nat) :
    Kept ⟨s.accounts.purgeExpiredSessions now, .purged now :: s.log⟩ := by
  refine ⟨fun row hmem => ?_, fun digest row hlast => ?_, ?_⟩
  · rw [latest_cons_of_none rfl]
    exact h.sessions row (List.mem_of_mem_filter hmem)
  · rw [latest_cons_of_none rfl] at hlast
    obtain hmem | ⟨time, hpurged, hexpired⟩ := h.present digest row hlast
    · by_cases hlive : now < row.expiresAt
      · exact .inl (List.mem_filter.mpr ⟨hmem, decide_eq_true hlive⟩)
      · exact .inr ⟨now, List.mem_cons_self, Nat.not_lt.mp hlive⟩
    · exact .inr ⟨time, List.mem_cons_of_mem _ hpurged, hexpired⟩
  · exact h.distinct.sublist (List.filter_sublist.map _)

end Tables

/-! ## What a turn can do -/

section Turns

variable {P R : Type} [DecidableEq P] (hashing : Hashing)

structure Holds (s : Site P) : Prop where
  accounted : Accounted s
  kept : Kept s
  sound : Justified (Sound hashing) s.log

/-- The statements, with what each adds to the log. -/
inductive Changes (p : P) (s : Site P) : Site P → Prop
  | same : Changes p s s
  | audited (actor action : String) (detail : List (String × String)) :
      Changes p s (s.auditing actor action detail)
  | noted {event : SiteEvent P} (sound : Sound hashing event s.log)
      (stored : ∀ username, stored username event = none)
      (flagged : ∀ username, flagged username event = none)
      (about : ∀ digest, about digest event = none)
      (said : ∀ q ≠ p, saidBy q event = none) :
      Changes p s (s.note event)
  | put {username : String} {passwordHash salt : Bytes} {source : PasswordSource}
      (sound : Sound hashing (.put p username passwordHash salt source) s.log) :
      Changes p s ⟨s.accounts.putOperator username passwordHash salt,
        .put p username passwordHash salt source :: s.log⟩
  | disabled {username : String} (flag : Bool)
      (present : (s.accounts.getOperator username).isSome) :
      Changes p s ⟨s.accounts.disable username flag, .disabled username flag :: s.log⟩
  | opened {digest : Bytes} {username csrf : String} {begun : Nat} {accounts : Accounts}
      (created : s.accounts.createSession digest username csrf (begun + SESSION_LIFETIME) =
        .ok accounts)
      (sound : Sound hashing (.opened p digest username csrf begun) s.log) :
      Changes p s ⟨accounts, .opened p digest username csrf begun :: s.log⟩
  | ended (digest : Bytes) :
      Changes p s ⟨s.accounts.deleteSession digest, .ended digest :: s.log⟩
  | purged (now : Nat) :
      Changes p s ⟨s.accounts.purgeExpiredSessions now, .purged now :: s.log⟩

/-- What a program has seen to that is about to write. -/
def Ready (p : P) (s : Site P) : SitePlace R → Prop
  | .accepted username => ∃ password, latest (saidBy p) s.log = some (.passed p username password)
  | .bootstrapping _ => latest (saidBy p) s.log = some (.counted p)
  | .prompting command username =>
    latest (saidBy p) s.log = some (.found p username (command == .passwd))
  | .handling operator _ =>
    ∃ token now, .admitted p token operator (some operator.csrf) now ∈ s.log
  | _ => True

variable {hashing} {p : P} {s s' : Site P} {place place' : SitePlace R}

theorem saidBy_self {event said : SiteEvent P} {older : List (SiteEvent P)}
    (h : saidBy p event = some said) : latest (saidBy p) (event :: older) = some said :=
  latest_cons_of_some h

/-- The account that was asked about is the one that the log tells of. -/
theorem sound_admitted (h : Holds hashing s) {cookie csrf : Option String} {operator : Operator}
    {now : Nat} (hoperator : currentOperator hashing s.accounts cookie now = some operator)
    (hcsrf : ∀ text ∈ csrf, text = operator.csrf ∧ text ≠ "") :
    Sound hashing (.admitted p (cookie.getD "") operator csrf now) s.log := by
  obtain ⟨token, row, rfl, hrow, rfl⟩ := currentOperator_eq_some hoperator
  obtain ⟨hmem, htoken, hlive, account, haccount, hdisabled⟩ := Accounts.getSession_eq_some hrow
  refine ⟨row, ?_, rfl, hlive,
    ⟨account, (h.accounted.operators _).symm.trans haccount, hdisabled⟩, hcsrf⟩
  rw [Option.getD_some, ← htoken]
  exact h.kept.sessions row hmem

theorem proceedTurn_changes {input : Input} (hready : Ready p s place)
    (hturn : proceedTurn hashing p s input place = some (s', place')) :
    Changes hashing p s s' ∧ Ready p s' place' := by
  cases place with
  | idle => cases hturn
  | rejected username =>
    obtain ⟨rfl, rfl⟩ := Prod.mk.inj (Option.some.inj hturn)
    exact ⟨.audited _ _ _, trivial⟩
  | accepted username =>
    simp only [proceedTurn] at hturn
    split at hturn
    · obtain ⟨rfl, rfl⟩ := Prod.mk.inj (Option.some.inj hturn)
      exact ⟨.same, trivial⟩
    next accounts hcreated =>
      obtain ⟨rfl, rfl⟩ := Prod.mk.inj (Option.some.inj hturn)
      exact ⟨.opened hcreated hready, trivial⟩
  | begun username =>
    obtain ⟨rfl, rfl⟩ := Prod.mk.inj (Option.some.inj hturn)
    exact ⟨.audited _ _ _, trivial⟩
  | bootstrapping password =>
    obtain ⟨rfl, rfl⟩ := Prod.mk.inj (Option.some.inj hturn)
    exact ⟨.put ⟨rfl, hready⟩, trivial⟩
  | bootstrapped =>
    obtain ⟨rfl, rfl⟩ := Prod.mk.inj (Option.some.inj hturn)
    exact ⟨.audited _ _ _, trivial⟩
  | purging =>
    obtain ⟨rfl, rfl⟩ := Prod.mk.inj (Option.some.inj hturn)
    exact ⟨.purged _, trivial⟩
  | prompting command username =>
    simp only [proceedTurn] at hturn
    split at hturn
    · obtain ⟨rfl, rfl⟩ := Prod.mk.inj (Option.some.inj hturn)
      exact ⟨.same, trivial⟩
    next password _ =>
      split at hturn
      · obtain ⟨rfl, rfl⟩ := Prod.mk.inj (Option.some.inj hturn)
        exact ⟨.same, trivial⟩
      next hlong =>
        obtain ⟨rfl, rfl⟩ := Prod.mk.inj (Option.some.inj hturn)
        exact ⟨.put ⟨hready, password, Nat.not_lt.mp hlong, rfl⟩, trivial⟩
  | updated command username =>
    obtain ⟨rfl, rfl⟩ := Prod.mk.inj (Option.some.inj hturn)
    exact ⟨.audited _ _ _, trivial⟩
  | handling operator request =>
    obtain ⟨rfl, rfl⟩ := Prod.mk.inj (Option.some.inj hturn)
    exact ⟨.same, trivial⟩

theorem beginTurn_changes (h : Holds hashing s) {act : SiteAct R}
    (hturn : beginTurn hashing p s act = some (s', place')) :
    Changes hashing p s s' ∧ Ready p s' place' := by
  cases act with
  | start password =>
    cases password with
    | none =>
      obtain ⟨rfl, rfl⟩ := Prod.mk.inj (Option.some.inj hturn)
      exact ⟨.same, trivial⟩
    | some password =>
      simp only [beginTurn] at hturn
      split at hturn
      · obtain ⟨rfl, rfl⟩ := Prod.mk.inj (Option.some.inj hturn)
        exact ⟨.same, trivial⟩
      next hnone =>
        obtain ⟨rfl, rfl⟩ := Prod.mk.inj (Option.some.inj hturn)
        have hcount := Accounts.operatorCount_eq_zero.mp (Nat.eq_zero_of_not_pos hnone)
        exact ⟨.noted
          (fun username => (h.accounted.operators username).symm.trans (hcount username))
          (fun _ => rfl) (fun _ => rfl) (fun _ => rfl) fun q hq => if_neg (Ne.symm hq),
          saidBy_self (if_pos rfl)⟩
  | login username password =>
    simp only [beginTurn] at hturn
    split at hturn
    next hpassed =>
      obtain ⟨rfl, rfl⟩ := Prod.mk.inj (Option.some.inj hturn)
      obtain ⟨account, haccount, hpassword⟩ := authenticate_eq_true.mp hpassed
      exact ⟨.noted ⟨account, (h.accounted.operators username).symm.trans haccount, hpassword⟩
        (fun _ => rfl) (fun _ => rfl) (fun _ => rfl) fun q hq => if_neg (Ne.symm hq),
        password, saidBy_self (if_pos rfl)⟩
    · obtain ⟨rfl, rfl⟩ := Prod.mk.inj (Option.some.inj hturn)
      exact ⟨.same, trivial⟩
  | logout cookie =>
    simp only [beginTurn] at hturn
    split at hturn
    · obtain ⟨rfl, rfl⟩ := Prod.mk.inj (Option.some.inj hturn)
      exact ⟨.same, trivial⟩
    · obtain ⟨rfl, rfl⟩ := Prod.mk.inj (Option.some.inj hturn)
      exact ⟨.same, trivial⟩
    next token hne =>
      obtain ⟨rfl, rfl⟩ := Prod.mk.inj (Option.some.inj hturn)
      rw [endSession_some hne]
      exact ⟨.ended _, trivial⟩
  | view cookie now =>
    simp only [beginTurn] at hturn
    split at hturn
    · obtain ⟨rfl, rfl⟩ := Prod.mk.inj (Option.some.inj hturn)
      exact ⟨.same, trivial⟩
    next operator hoperator =>
      obtain ⟨rfl, rfl⟩ := Prod.mk.inj (Option.some.inj hturn)
      exact ⟨.noted (sound_admitted h hoperator fun _ hnone => by cases hnone)
        (fun _ => rfl) (fun _ => rfl) (fun _ => rfl) fun _ _ => rfl, trivial⟩
  | submit cookie csrf request now =>
    simp only [beginTurn] at hturn
    split at hturn
    · obtain ⟨rfl, rfl⟩ := Prod.mk.inj (Option.some.inj hturn)
      exact ⟨.same, trivial⟩
    next operator hoperator =>
      split at hturn
      · obtain ⟨rfl, rfl⟩ := Prod.mk.inj (Option.some.inj hturn)
        exact ⟨.same, trivial⟩
      next hcsrf =>
        obtain ⟨rfl, rfl⟩ := Prod.mk.inj (Option.some.inj hturn)
        obtain ⟨rfl, hne⟩ := checkCsrf_eq_ok hcsrf
        refine ⟨.noted (sound_admitted h hoperator ?_)
          (fun _ => rfl) (fun _ => rfl) (fun _ => rfl) fun _ _ => rfl,
          cookie.getD "", now, List.mem_cons_self⟩
        intro text htext
        obtain rfl := Option.some.inj htext
        exact ⟨rfl, hne⟩
  | operators command username =>
    have hfound : Changes hashing p s
        (s.note (.found p username (s.accounts.getOperator username).isSome)) :=
      .noted (by rw [h.accounted.operators]; rfl) (fun _ => rfl) (fun _ => rfl) (fun _ => rfl)
        fun q hq => if_neg (Ne.symm hq)
    simp only [beginTurn] at hturn
    split at hturn
    · obtain ⟨rfl, rfl⟩ := Prod.mk.inj (Option.some.inj hturn)
      exact ⟨.same, trivial⟩
    · generalize (s.accounts.getOperator username).isSome = exist at hfound hturn
      cases command <;> cases exist <;>
        obtain ⟨rfl, rfl⟩ := Prod.mk.inj (Option.some.inj hturn)
      · exact ⟨hfound, saidBy_self (if_pos rfl)⟩
      · exact ⟨hfound, trivial⟩
      · exact ⟨hfound, trivial⟩
      · exact ⟨hfound, saidBy_self (if_pos rfl)⟩
  | disable username flag =>
    simp only [beginTurn] at hturn
    split at hturn
    next hpresent =>
      obtain ⟨rfl, rfl⟩ := Prod.mk.inj (Option.some.inj hturn)
      exact ⟨.disabled flag hpresent, trivial⟩
    · obtain ⟨rfl, rfl⟩ := Prod.mk.inj (Option.some.inj hturn)
      exact ⟨.same, trivial⟩
  | proceed input => cases hturn

theorem siteTurn_changes (h : Holds hashing s) (hready : Ready p s place) {act : SiteAct R}
    (hturn : siteTurn hashing p s act place = some (s', place')) :
    Changes hashing p s s' ∧ Ready p s' place' := by
  unfold siteTurn at hturn
  split at hturn
  · exact proceedTurn_changes hready hturn
  · exact beginTurn_changes h hturn
  · cases hturn

theorem Holds.changes (h : Holds hashing s) (hchanges : Changes hashing p s s') :
    Holds hashing s' := by
  cases hchanges with
  | same => exact h
  | audited actor action detail =>
    exact ⟨⟨h.accounted.operators, h.accounted.unflagged⟩,
      ⟨h.kept.sessions, h.kept.present, h.kept.distinct⟩, h.sound⟩
  | noted hsound hstored hflagged habout =>
    exact ⟨h.accounted.cons (fun _ => rfl) hstored hflagged, h.kept.cons rfl habout,
      h.sound.cons hsound⟩
  | put hsound =>
    refine ⟨h.accounted.put, h.kept.cons ?_ fun _ => rfl, h.sound.cons hsound⟩
    unfold Accounts.putOperator
    split <;> rfl
  | disabled flag hpresent =>
    exact ⟨h.accounted.disabled hpresent, h.kept.cons rfl fun _ => rfl, h.sound.cons trivial⟩
  | opened hcreated hsound =>
    refine ⟨h.accounted.cons (fun _ => ?_) (fun _ => rfl) fun _ => rfl, h.kept.opened hcreated,
      h.sound.cons hsound⟩
    obtain ⟨-, -, rfl⟩ := Accounts.createSession_eq_ok.mp hcreated
    rfl
  | ended digest =>
    exact ⟨h.accounted.cons (fun _ => rfl) (fun _ => rfl) fun _ => rfl, h.kept.ended digest,
      h.sound.cons trivial⟩
  | purged now =>
    exact ⟨h.accounted.cons (fun _ => rfl) (fun _ => rfl) fun _ => rfl, h.kept.purged now,
      h.sound.cons trivial⟩

/-- What one party does is nothing that another has said. -/
theorem Changes.said (hchanges : Changes hashing p s s') {q : P} (hq : q ≠ p) :
    latest (saidBy q) s'.log = latest (saidBy q) s.log := by
  cases hchanges with
  | same | audited => rfl
  | noted _ _ _ _ hsaid => exact latest_cons_of_none (hsaid q hq)
  | put | opened => exact latest_cons_of_none (if_neg (Ne.symm hq))
  | disabled | ended | purged => exact latest_cons_of_none rfl

theorem Changes.log (hchanges : Changes hashing p s s') {event : SiteEvent P}
    (h : event ∈ s.log) : event ∈ s'.log := by
  cases hchanges with
  | same | audited => exact h
  | _ => exact List.mem_cons_of_mem _ h

theorem Ready.other (hchanges : Changes hashing p s s') {q : P} (hq : q ≠ p)
    (h : Ready q s place) : Ready q s' place := by
  cases place with
  | accepted | bootstrapping | prompting =>
    rw [Ready, hchanges.said hq]
    exact h
  | handling =>
    obtain ⟨token, now, hadmitted⟩ := h
    exact ⟨token, now, hchanges.log hadmitted⟩
  | _ => trivial

theorem site_invariant : (site P R hashing).Invariant (fun _ _ => True) (Holds hashing)
    fun p s place => Ready p s place where
  start := ⟨⟨fun _ => rfl, fun _ _ => rfl⟩,
    ⟨fun _ hmem => absurd hmem List.not_mem_nil, fun _ _ hlast => (by cases hlast), .nil⟩, trivial⟩
  idle _ _ := trivial
  own _ p act shared place _ hI hL hturn := by
    obtain ⟨hchanges, hready⟩ := siteTurn_changes hI (hL p) hturn
    exact ⟨hI.changes hchanges, hready⟩
  other _ p act shared place q hq _ hI hL hturn :=
    (hL q).other (siteTurn_changes hI (hL p) hturn).1 hq

theorem holds_of_reachable {c : SiteConfig P R} (hc : (site P R hashing).system.Reachable c) :
    Holds hashing c.shared ∧ ∀ p, Ready p c.shared (c.place p) :=
  site_invariant.holds (hc.to_when fun _ _ => trivial)

end Turns

/-! ## An application that starts, and a form that is sent -/

def adminSalt : Bytes := [0, 1, 2, 3, 4, 5, 6, 7, 8, 9, 10, 11, 12, 13, 14, 15]

def adminHash : Bytes :=
  [199, 46, 148, 8, 128, 179, 241, 91, 255, 63, 162, 106, 58, 73, 20, 15, 128, 206, 154, 28, 77,
   210, 213, 210, 123, 171, 16, 1, 64, 113, 186, 148, 14, 105, 1, 124, 91, 135, 241, 197, 62, 45,
   47, 120, 71, 72, 65, 139, 97, 146, 58, 162, 207, 73, 77, 227, 202, 246, 78, 55, 242, 28, 150,
   214]

def adminToken : String := "q3Zk1Vw0pT8yB5nR7mXc2LdF4gHjS6aU9eOiKxQvYzI"

/-- The digests that are asked for. -/
def adminHashing : Hashing where
  scrypt password salt :=
    if password = "correct horse battery" ∧ salt = adminSalt then adminHash else []
  sha256 message :=
    if message = Utf8.bytes adminToken then
      [148, 82, 254, 53, 70, 55, 40, 157, 208, 187, 136, 53, 193, 199, 44, 11, 89, 5, 211, 247, 36,
       17, 119, 77, 224, 0, 84, 120, 177, 118, 6, 183]
    else []

def adminCsrf : String := "nYx0mE7wQ2"

/-- The application starts and puts its first operator, who logs in at the time 1000 and sends a
form a minute later. -/
def formSent : List (Move Nat fun _ => SiteAct Unit) :=
  let input : Input := ⟨adminToken, adminCsrf, adminSalt, 1000, none⟩
  [.turn 0 (.start (some "correct horse battery")), .turn 0 (.proceed input),
    .turn 0 (.proceed input), .turn 0 (.proceed input),
    .turn 1 (.login "admin" "correct horse battery"), .turn 1 (.proceed input),
    .turn 1 (.proceed input),
    .turn 2 (.submit (some adminToken) (some adminCsrf) () 1060)]

def adminSession : SessionRow :=
  ⟨tokenDigest adminHashing adminToken, "admin", adminCsrf, 1000 + SESSION_LIFETIME⟩

def formLog : List (SiteEvent Nat) :=
  [.admitted 2 adminToken ⟨"admin", adminCsrf⟩ (some adminCsrf) 1060,
    .opened 1 (tokenDigest adminHashing adminToken) "admin" adminCsrf 1000,
    .passed 1 "admin" "correct horse battery", .purged 1000,
    .put 0 "admin" adminHash adminSalt .bootstrap, .counted 0]

theorem formSent_reaches : ∃ c : SiteConfig Nat Unit,
    (site Nat Unit adminHashing).system.Reachable c ∧ c.shared.log = formLog := by
  have hrun : (System.exec (site Nat Unit adminHashing).next formSent
      (site Nat Unit adminHashing).initial).map (fun c => c.shared.log) = some formLog := by
    decide +kernel
  obtain ⟨c, hc, hlog⟩ := Option.map_eq_some_iff.mp hrun
  exact ⟨c, System.reachable_exec (.start rfl) hc, hlog⟩

/-- While the application starts, the first operator is added by hand. -/
def addedMeanwhile : List (Move Nat fun _ => SiteAct Unit) :=
  let input : Input := ⟨adminToken, adminCsrf, adminSalt, 1000, some "correct horse battery"⟩
  [.turn 0 (.start (some "correct horse battery")), .turn 1 (.operators .add "admin"),
    .turn 1 (.proceed input), .turn 0 (.proceed input)]

def meanwhileLog : List (SiteEvent Nat) :=
  [.put 0 "admin" adminHash adminSalt .bootstrap,
    .put 1 "admin" adminHash adminSalt (.operators .add), .found 1 "admin" false, .counted 0]

theorem addedMeanwhile_reaches : ∃ c : SiteConfig Nat Unit,
    (site Nat Unit adminHashing).system.Reachable c ∧ c.shared.log = meanwhileLog := by
  have hrun : (System.exec (site Nat Unit adminHashing).next addedMeanwhile
      (site Nat Unit adminHashing).initial).map (fun c => c.shared.log) = some meanwhileLog := by
    decide +kernel
  obtain ⟨c, hc, hlog⟩ := Option.map_eq_some_iff.mp hrun
  exact ⟨c, System.reachable_exec (.start rfl) hc, hlog⟩

/-! ## The results -/

section Results

variable {P R : Type} [DecidableEq P] {hashing : Hashing} {c : SiteConfig P R}

theorem eq_of_saidBy {p : P} {event said : SiteEvent P} (h : saidBy p event = some said) :
    event = said := by
  cases event <;> simp only [saidBy, reduceCtorEq, Option.ite_none_right_eq_some,
    Option.some.injEq] at h <;> exact h.2

/-- A party has said something last, and nothing since. -/
theorem split_of_said {p : P} {said : SiteEvent P} {log : List (SiteEvent P)}
    (h : latest (saidBy p) log = some said) :
    ∃ since earlier, log = since ++ said :: earlier ∧ ∀ event ∈ since, saidBy p event = none := by
  obtain ⟨since, event, earlier, rfl, hsaid, hsince⟩ := split_of_latest h
  obtain rfl := eq_of_saidBy hsaid
  exact ⟨since, earlier, rfl, hsince⟩

/-- The session of the cookie was opened less than its lifetime ago, and nobody has logged it out;
its operator logged in for it, with the password of then. One login opens one session. -/
def LoggedIn (hashing : Hashing) (token : String) (operator : Operator) (now : Nat)
    (older : List (SiteEvent P)) : Prop :=
  ∃ since q begun between password earlier account,
    older = since ++ .opened q (tokenDigest hashing token) operator.username operator.csrf begun ::
      (between ++ .passed q operator.username password :: earlier) ∧
    now < begun + SESSION_LIFETIME ∧
    (∀ event ∈ since, about (tokenDigest hashing token) event = none) ∧
    (∀ event ∈ between, saidBy q event = none) ∧
    accountAt operator.username earlier = some account ∧ account.disabled = false ∧
    hashing.scrypt password account.salt = account.passwordHash

theorem loggedIn_of_sound {p : P} {token : String} {operator : Operator} {csrf : Option String}
    {now : Nat} {older : List (SiteEvent P)}
    (hsound : Justified (Sound hashing) (.admitted p token operator csrf now :: older)) :
    LoggedIn hashing token operator now older ∧
      (∃ account, accountAt operator.username older = some account ∧ account.disabled = false) ∧
      ∀ text ∈ csrf, text = operator.csrf ∧ text ≠ "" := by
  obtain ⟨⟨row, hlast, rfl, hnow, henabled, hcsrf⟩, hrest⟩ := hsound
  obtain ⟨since, event, rest, rfl, hopened, hsince⟩ := split_of_latest hlast
  obtain ⟨q, begun, rfl, hexpires⟩ := opened_of_about hopened
  obtain ⟨password, hpassed⟩ := hrest.of_append
  obtain ⟨between, earlier, rfl, hbetween⟩ := split_of_said hpassed
  obtain ⟨account, haccount, henabled', hpassword⟩ := (Justified.older hrest).2.of_append
  exact ⟨⟨since, q, begun, between, password, earlier, account, rfl, hexpires ▸ hnow, hsince,
    hbetween, haccount, henabled', hpassword⟩, henabled, hcsrf⟩

/-- Whoever is let in has logged in with the password, less than the lifetime of a session ago and
not out again; is not disabled; and where a form was sent, it carried the token of that session. -/
theorem admitted_by_password (hc : (site P R hashing).system.Reachable c)
    {newer older : List (SiteEvent P)} {p : P} {token : String} {operator : Operator}
    {csrf : Option String} {now : Nat}
    (hlog : c.shared.log = newer ++ .admitted p token operator csrf now :: older) :
    LoggedIn hashing token operator now older ∧
      (∃ account, accountAt operator.username older = some account ∧ account.disabled = false) ∧
      ∀ text ∈ csrf, text = operator.csrf ∧ text ≠ "" := by
  have hsound := (holds_of_reachable hc).1.sound
  rw [hlog] at hsound
  exact loggedIn_of_sound (Justified.older hsound)

theorem admitted_by_password_admin :
    LoggedIn adminHashing adminToken ⟨"admin", adminCsrf⟩ 1060 formLog.tail := by
  obtain ⟨c, hc, hlog⟩ := formSent_reaches
  have hsplit : c.shared.log = [] ++
      .admitted 2 adminToken ⟨"admin", adminCsrf⟩ (some adminCsrf) 1060 :: formLog.tail := hlog
  exact (admitted_by_password hc hsplit).1

/-- What is found under a digest is the session that was opened under it last, unless somebody has
logged it out, it has expired or its operator is disabled. -/
theorem session_found_iff (hc : (site P R hashing).system.Reachable c) {digest : Bytes} {now : Nat}
    (hclock : ∀ time, .purged time ∈ c.shared.log → time ≤ now) {row : SessionRow} :
    c.shared.accounts.getSession digest now = some row ↔
      latest (about digest) c.shared.log = some (some row) ∧ now < row.expiresAt ∧
        ∃ account, accountAt row.username c.shared.log = some account ∧
          account.disabled = false := by
  obtain ⟨haccounted, hkept, -⟩ := (holds_of_reachable hc).1
  constructor
  · intro h
    obtain ⟨hmem, rfl, hlive, account, haccount, hdisabled⟩ := Accounts.getSession_eq_some h
    exact ⟨hkept.sessions row hmem, hlive, account,
      (haccounted.operators _).symm.trans haccount, hdisabled⟩
  · rintro ⟨hlast, hlive, account, haccount, hdisabled⟩
    have hdigest := tokenSha256_of_about hlast
    have hmem : row ∈ c.shared.accounts.sessions := by
      obtain hmem | ⟨time, hpurged, hexpired⟩ := hkept.present digest row hlast
      · exact hmem
      · have := hclock time hpurged
        omega
    obtain ⟨operator, hoperator⟩ : ∃ operator,
        c.shared.accounts.getOperator row.username = some operator ∧ operator.disabled = false :=
      ⟨account, (haccounted.operators _).trans haccount, hdisabled⟩
    rw [← hdigest]
    refine Accounts.getSession_of_mem hkept.distinct hmem ?_
    simp [Accounts.live, hlive, hoperator]

theorem session_found_iff_admin : ∃ c : SiteConfig Nat Unit, c.shared.log = formLog ∧
    c.shared.accounts.getSession adminSession.tokenSha256 1060 = some adminSession := by
  obtain ⟨c, hc, hlog⟩ := formSent_reaches
  have hclock : ∀ time, .purged time ∈ c.shared.log → time ≤ 1060 := by
    intro time hmem
    rw [hlog] at hmem
    simp only [formLog, List.mem_cons, reduceCtorEq, SiteEvent.purged.injEq, List.not_mem_nil,
      or_false, false_or] at hmem
    omega
  refine ⟨c, hlog, (session_found_iff hc hclock).mpr ?_⟩
  rw [hlog]
  exact ⟨by decide +kernel, by decide +kernel, ⟨"admin", adminHash, adminSalt, false⟩,
    by decide +kernel, rfl⟩

/-- Only `passwd` replaces a password. What else puts one has counted no operators, or found no
such operator, first; and where there is one by the time it writes, another process has put it in
between. -/
theorem replaced_by_passwd (hc : (site P R hashing).system.Reachable c)
    {newer older : List (SiteEvent P)} {p : P} {username : String} {passwordHash salt : Bytes}
    {source : PasswordSource} (hsource : source ≠ .operators .passwd)
    (hlog : c.shared.log = newer ++ .put p username passwordHash salt source :: older) :
    (source = .bootstrap → username = "admin") ∧ ∃ since looked earlier,
      older = since ++ looked :: earlier ∧
      (source = .bootstrap ∧ looked = .counted p ∨
        source = .operators .add ∧ looked = .found p username false) ∧
      accountAt username earlier = none ∧
      ((accountAt username older).isSome → ∃ q other salt' source', q ≠ p ∧
        .put q username other salt' source' ∈ since) := by
  have hsound := (holds_of_reachable hc).1.sound
  rw [hlog] at hsound
  have hput := hsound.of_append
  obtain ⟨looked, hname, hlooks, hlooked, hsilent, hnone⟩ : ∃ looked,
      (source = .bootstrap → username = "admin") ∧
      (source = .bootstrap ∧ looked = .counted p ∨
        source = .operators .add ∧ looked = .found p username false) ∧
      latest (saidBy p) older = some looked ∧ stored username looked = none ∧
      ∀ earlier, Sound hashing looked earlier → accountAt username earlier = none := by
    cases source with
    | bootstrap =>
      obtain ⟨hname, hlast⟩ := hput
      exact ⟨_, fun _ => hname, .inl ⟨rfl, rfl⟩, hlast, rfl, fun _ hnobody => hnobody username⟩
    | operators command =>
      cases command with
      | add =>
        refine ⟨_, fun heq => (by cases heq), .inr ⟨rfl, rfl⟩, hput.1, rfl, fun earlier hfound => ?_⟩
        have hfound : (accountAt username earlier).isSome = false := hfound
        exact Option.isNone_iff_eq_none.mp (Option.isSome_eq_false_iff.mp hfound)
      | passwd => exact absurd rfl hsource
  obtain ⟨since, event, earlier, rfl, hsaid, hsince⟩ := split_of_latest hlooked
  obtain rfl := eq_of_saidBy hsaid
  have hearlier := hnone earlier (Justified.older hsound).2.of_append
  refine ⟨hname, since, event, earlier, rfl, hlooks, hearlier, fun hsome => ?_⟩
  obtain ⟨q, other, salt', source', hmem⟩ := account_iff_put.mp hsome
  obtain hmem | hmem := List.mem_append.mp hmem
  · refine ⟨q, other, salt', source', fun hq => ?_, hmem⟩
    have hnever := hsince _ hmem
    rw [hq] at hnever
    simp [saidBy] at hnever
  · obtain rfl | hmem := List.mem_cons.mp hmem
    · simp [stored] at hsilent
    · have hsome := account_iff_put.mpr ⟨q, other, salt', source', hmem⟩
      rw [hearlier] at hsome
      cases hsome

theorem replaced_by_passwd_admin : ∃ since earlier,
    meanwhileLog.tail = since ++ .counted 0 :: earlier ∧ accountAt "admin" earlier = none ∧
      ∃ q other salt source, q ≠ 0 ∧ .put q "admin" other salt source ∈ since := by
  obtain ⟨c, hc, hlog⟩ := addedMeanwhile_reaches
  have hsplit : c.shared.log = [] ++ .put 0 "admin" adminHash adminSalt .bootstrap ::
      meanwhileLog.tail := hlog
  have hsource : PasswordSource.bootstrap ≠ .operators .passwd := by decide
  obtain ⟨-, since, looked, earlier, hrest, ⟨-, rfl⟩ | ⟨hadd, -⟩, hnone, hput⟩ :=
    replaced_by_passwd hc hsource hsplit
  · exact ⟨since, earlier, hrest, hnone, hput (by decide +kernel)⟩
  · cases hadd

end Results

end DistPlatform.Admin
