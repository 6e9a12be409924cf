import DistPlatform.Library.Fallible
import DistPlatform.Library.Utf8
import Mathlib.Data.List.Nodup

/-!
# Operators and their sessions (`dist_admin.auth`, and the tables it reads)

A password is kept as a salted hash, and a session under the digest of its cookie. Each function
of the store is one statement that commits on its own. Times are in seconds.

## Main definitions

* `Accounts` — the rows of `operators`, `sessions` and `audit_log`.
* `getOperator`, `putOperator`, `createSession`, `getSession` — the statements.
* `authenticate`, `sessionFor`, `currentOperator`, `checkCsrf` — what the routes ask.
-/

namespace DistPlatform.Admin

open DistPlatform

abbrev Bytes := List UInt8

structure OperatorRow where
  username : String
  passwordHash : Bytes
  salt : Bytes
  disabled : Bool
  deriving DecidableEq

structure SessionRow where
  tokenSha256 : Bytes
  username : String
  csrfToken : String
  expiresAt : Nat
  deriving DecidableEq

structure AuditRow where
  actor : String
  action : String
  detail : List (String × String)
  deriving DecidableEq

structure Accounts where
  operators : List OperatorRow
  sessions : List SessionRow
  audit : List AuditRow
  deriving DecidableEq

def Accounts.empty : Accounts := ⟨[], [], []⟩

/-- The constraints of the tables that a statement can break. -/
inductive AccountFailure
  | UniqueViolation
  | ForeignKeyViolation
  deriving DecidableEq, Repr

/-- `scrypt` with the parameters of the module, and SHA-256. -/
structure Hashing where
  scrypt : String → Bytes → Bytes
  sha256 : Bytes → Bytes

/-! ## The statements -/

namespace Accounts

variable (db : Accounts)

def getOperator (username : String) : Option OperatorRow :=
  db.operators.find? (·.username == username)

def operatorCount : Nat := db.operators.length

/-- The flag of a row that is there stays. -/
def putOperator (username : String) (passwordHash salt : Bytes) : Accounts :=
  if (db.getOperator username).isSome then
    { db with operators := db.operators.map fun row =>
        if row.username == username then { row with passwordHash, salt } else row }
  else { db with operators := db.operators ++ [⟨username, passwordHash, salt, false⟩] }

def createSession (tokenSha256 : Bytes) (username csrfToken : String) (expiresAt : Nat) :
    Except AccountFailure Accounts :=
  if db.sessions.any (·.tokenSha256 == tokenSha256) then .error .UniqueViolation
  else if (db.getOperator username).isNone then .error .ForeignKeyViolation
  else .ok { db with sessions := db.sessions ++ [⟨tokenSha256, username, csrfToken, expiresAt⟩] }

/-- The session is not over, and its operator is not disabled. -/
def live (now : Nat) (row : SessionRow) : Bool :=
  decide (now < row.expiresAt) && (db.getOperator row.username).any (!·.disabled)

def getSession (tokenSha256 : Bytes) (now : Nat) : Option SessionRow :=
  db.sessions.find? fun row => row.tokenSha256 == tokenSha256 && db.live now row

def deleteSession (tokenSha256 : Bytes) : Accounts :=
  { db with sessions := db.sessions.filter (·.tokenSha256 != tokenSha256) }

def purgeExpiredSessions (now : Nat) : Accounts :=
  { db with sessions := db.sessions.filter fun row => decide (now < row.expiresAt) }

def auditing (actor action : String) (detail : List (String × String)) : Accounts :=
  { db with audit := db.audit ++ [⟨actor, action, detail⟩] }

/-- No function of the store writes the flag: this is done by hand. -/
def disable (username : String) (disabled : Bool) : Accounts :=
  { db with operators := db.operators.map fun row =>
      if row.username == username then { row with disabled } else row }

end Accounts

/-! ## Passwords and tokens -/

section Auth

variable (hashing : Hashing) (db : Accounts)

/-- The clock of the process, plus this. -/
def SESSION_LIFETIME : Nat := 12 * 60 * 60

def verifyPassword (password : String) (expected salt : Bytes) : Bool :=
  hashing.scrypt password salt == expected

def authenticate (username password : String) : Bool :=
  match db.getOperator username with
  | none => false
  | some row =>
    if row.disabled then false else verifyPassword hashing password row.passwordHash row.salt

def tokenDigest (token : String) : Bytes := hashing.sha256 (Utf8.bytes token)

/-- A cookie that is missing or empty is of no session. -/
def sessionFor (cookie : Option String) (now : Nat) : Option SessionRow :=
  match cookie with
  | none | some "" => none
  | some token => db.getSession (tokenDigest hashing token) now

/-- Who is making the request, and the token that the session's forms carry. -/
structure Operator where
  username : String
  csrf : String
  deriving DecidableEq

def currentOperator (cookie : Option String) (now : Nat) : Option Operator :=
  (sessionFor hashing db cookie now).map fun row => ⟨row.username, row.csrfToken⟩

def endSession (cookie : Option String) : Accounts :=
  match cookie with
  | none | some "" => db
  | some token => db.deleteSession (tokenDigest hashing token)

/-- What a form that is refused raises. -/
inductive FormRefusal
  /-- `hmac.compare_digest` does not compare texts that are not ASCII. -/
  | TypeError
  | FormError (message : String)
  deriving DecidableEq, Repr

def isAscii (text : String) : Bool := text.toList.all (·.toNat < 128)

/-- `hmac.compare_digest` on texts. -/
def compareDigest (a b : String) : Except FormRefusal Bool :=
  if isAscii a && isAscii b then .ok (a == b) else .error .TypeError

def csrfOk (expected : String) (supplied : Option String) : Except FormRefusal Bool :=
  match supplied with
  | none | some "" => .ok false
  | some text => compareDigest expected text

def checkCsrf (operator : Operator) (supplied : Option String) : Except FormRefusal Unit := do
  if ← csrfOk operator.csrf supplied then return ()
  else .error (.FormError "this form expired; reload the page and try again")

end Auth

/-! ## What the statements answer -/

namespace Accounts

variable {db db' : Accounts} {username other : String} {tokenSha256 : Bytes} {now : Nat}

theorem getOperator_username {row : OperatorRow} (h : db.getOperator username = some row) :
    row.username = username := by
  simpa using List.find?_some h

theorem getOperator_map {f : OperatorRow → OperatorRow}
    (hf : ∀ row, (f row).username = row.username) :
    ({ db with operators := db.operators.map f } : Accounts).getOperator username =
      (db.getOperator username).map f := by
  simp only [getOperator, List.find?_map]
  congr 2
  funext row
  simp [hf]

theorem getOperator_putOperator {passwordHash salt : Bytes} :
    (db.putOperator username passwordHash salt).getOperator other =
      if other = username then
        some ⟨username, passwordHash, salt, (db.getOperator username).any (·.disabled)⟩
      else db.getOperator other := by
  unfold putOperator
  split
  next hthere =>
    rw [getOperator_map (fun row => by split <;> rfl)]
    split
    next heq =>
      subst heq
      obtain ⟨row, hrow⟩ := Option.isSome_iff_exists.mp hthere
      have hname := getOperator_username hrow
      simp [hrow, hname]
    next hne =>
      cases hrow : db.getOperator other with
      | none => rfl
      | some row =>
        have hname := getOperator_username hrow
        simp [hname, hne]
  next hnew =>
    rw [Bool.not_eq_true, Option.isSome_eq_false_iff, Option.isNone_iff_eq_none] at hnew
    simp only [getOperator, List.find?_append, List.find?_singleton] at hnew ⊢
    by_cases heq : other = username
    · subst heq
      simp [hnew]
    · simp [heq, Ne.symm heq]

theorem getOperator_disable {disabled : Bool} :
    (db.disable username disabled).getOperator other =
      if other = username then (db.getOperator other).map ({ · with disabled })
      else db.getOperator other := by
  unfold disable
  rw [getOperator_map (fun row => by split <;> rfl)]
  cases hrow : db.getOperator other with
  | none => simp
  | some row =>
    have hname := getOperator_username hrow
    split
    next heq => simp [hname, heq]
    next hne => simp [hname, hne]

theorem operatorCount_eq_zero :
    db.operatorCount = 0 ↔ ∀ username, db.getOperator username = none := by
  constructor
  · intro h username
    rw [operatorCount, List.length_eq_zero_iff] at h
    simp [getOperator, h]
  · intro h
    cases hrows : db.operators with
    | nil => simp [operatorCount, hrows]
    | cons row rows =>
      have hnone := h row.username
      simp [getOperator, hrows] at hnone

theorem createSession_eq_ok {csrfToken : String} {expiresAt : Nat} :
    db.createSession tokenSha256 username csrfToken expiresAt = .ok db' ↔
      (∀ row ∈ db.sessions, row.tokenSha256 ≠ tokenSha256) ∧ (db.getOperator username).isSome ∧
        db' = { db with
          sessions := db.sessions ++ [⟨tokenSha256, username, csrfToken, expiresAt⟩] } := by
  unfold createSession
  split
  next htaken =>
    obtain ⟨row, hrow, htoken⟩ := List.any_eq_true.mp htaken
    refine iff_of_false (fun h => by cases h) fun h => h.1 row hrow (beq_iff_eq.mp htoken)
  next hfree =>
    have hfree : ∀ row ∈ db.sessions, row.tokenSha256 ≠ tokenSha256 := by simpa using hfree
    split
    next hnone =>
      refine iff_of_false (fun h => by cases h) fun h => ?_
      rw [Option.isNone_iff_eq_none] at hnone
      have hsome := h.2.1
      rw [hnone] at hsome
      cases hsome
    next hsome =>
      rw [Option.isNone_iff_eq_none, ← ne_eq, Option.ne_none_iff_isSome] at hsome
      constructor
      · intro h
        exact ⟨hfree, hsome, (Except.ok.inj h).symm⟩
      · rintro ⟨-, -, rfl⟩
        rfl

theorem getSession_eq_some {row : SessionRow} (h : db.getSession tokenSha256 now = some row) :
    row ∈ db.sessions ∧ row.tokenSha256 = tokenSha256 ∧ now < row.expiresAt ∧
      ∃ operator, db.getOperator row.username = some operator ∧ operator.disabled = false := by
  have hmem := List.mem_of_find?_eq_some h
  have hrow := List.find?_some h
  simp only [live, Bool.and_eq_true, beq_iff_eq, decide_eq_true_eq, Option.any_eq_true,
    Bool.not_eq_eq_eq_not, Bool.not_true] at hrow
  exact ⟨hmem, hrow.1, hrow.2.1, hrow.2.2⟩

theorem getSession_of_mem {row : SessionRow} (hdistinct : (db.sessions.map (·.tokenSha256)).Nodup)
    (hmem : row ∈ db.sessions) (hlive : db.live now row = true) :
    db.getSession row.tokenSha256 now = some row := by
  cases hfound : db.getSession row.tokenSha256 now with
  | none =>
    have hnone := List.find?_eq_none.mp hfound row hmem
    simp [hlive] at hnone
  | some other =>
    obtain ⟨hother, htoken, -⟩ := getSession_eq_some hfound
    rw [List.inj_on_of_nodup_map hdistinct hother hmem htoken]

end Accounts

section Auth

variable {hashing : Hashing} {db : Accounts} {username password : String} {cookie : Option String}
  {now : Nat}

theorem authenticate_eq_true : authenticate hashing db username password = true ↔
    ∃ row, db.getOperator username = some row ∧ row.disabled = false ∧
      hashing.scrypt password row.salt = row.passwordHash := by
  unfold authenticate
  cases db.getOperator username with
  | none => simp
  | some row => cases hdisabled : row.disabled <;> simp [hdisabled, verifyPassword]

/-- A request is an operator's where its cookie is of a live session. -/
theorem currentOperator_eq_some {operator : Operator}
    (h : currentOperator hashing db cookie now = some operator) :
    ∃ token row, cookie = some token ∧ db.getSession (tokenDigest hashing token) now = some row ∧
      operator = ⟨row.username, row.csrfToken⟩ := by
  obtain ⟨row, hrow, rfl⟩ := Option.map_eq_some_iff.mp h
  unfold sessionFor at hrow
  split at hrow
  · cases hrow
  · cases hrow
  next token _ => exact ⟨token, row, rfl, hrow, rfl⟩

/-- A cookie that is there ends the session of its token. -/
theorem endSession_some {token : String} (hne : token ≠ "") :
    endSession hashing db (some token) = db.deleteSession (tokenDigest hashing token) := by
  unfold endSession
  split
  · contradiction
  next heq => exact absurd (Option.some.inj heq) hne
  next heq => rw [Option.some.inj heq]

/-- A form passes with the token of the session, and with no other text. -/
theorem checkCsrf_eq_ok {operator : Operator} {supplied : Option String}
    (h : checkCsrf operator supplied = .ok ()) :
    supplied = some operator.csrf ∧ operator.csrf ≠ "" := by
  unfold checkCsrf csrfOk at h
  split at h
  · cases h
  · cases h
  next text hne =>
    unfold compareDigest at h
    split at h
    · simp only [Fallible.bind_ok] at h
      split at h
      next heq =>
        obtain rfl := beq_iff_eq.mp heq
        exact ⟨rfl, hne⟩
      · cases h
    · cases h

end Auth

end DistPlatform.Admin
