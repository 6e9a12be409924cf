import DistPlatform.Library.Text

/-!
# Roles, thresholds and expiry (`dist_core.roles`)

The four top-level TUF roles and one delegated role per application. An application id is
checked once, where it becomes a role name, because the role name is also a file name.

## Main definitions

* `appRoleName` — `app-<id>`, or the refusal.
* `RolePolicy` — key custody, threshold and expiry of one role.
* `appRolePolicy` — the policy of an application's role; `critical` selects custody.
-/

namespace DistPlatform.Core

open DistPlatform

def ROOT := "root"
def TARGETS := "targets"
def SNAPSHOT := "snapshot"
def TIMESTAMP := "timestamp"

def APP_ROLE_PREFIX := "app-"

/-- Python's `ValueError`, with its text. -/
structure ValueError where
  message : String
  deriving DecidableEq, Repr

/-- `[a-z0-9]` -/
def appIdFirst (c : Char) : Bool := ('a' ≤ c && c ≤ 'z') || ('0' ≤ c && c ≤ '9')

/-- `[a-z0-9-]` -/
def appIdRest (c : Char) : Bool := appIdFirst c || c == '-'

/-- `[a-z0-9][a-z0-9-]{1,62}` over a whole text. -/
def appIdBody : List Char → Bool
  | [] => false
  | c :: cs => appIdFirst c && cs.all appIdRest && 1 ≤ cs.length && cs.length ≤ 62

/-- `APP_ID_PATTERN.match`. -/
def appIdMatches (appId : String) : Bool := Text.endsAnchored appIdBody appId.toList

def appRoleName (appId : String) : Except ValueError String :=
  if appIdMatches appId then .ok (APP_ROLE_PREFIX ++ appId)
  else .error ⟨"invalid app id " ++ Text.quoted appId ++ ": must match ^[a-z0-9][a-z0-9-]{1,62}$ " ++
    "so it is safe as both a role name and a filename"⟩

/-- Which KeePass database holds a role's private keys. -/
inductive KeyStore
  | OFFLINE
  | ONLINE
  deriving DecidableEq, Repr

/-- `expiry` is in days. The constructor refuses fewer keys than the threshold needs. -/
structure RolePolicy where
  name : String
  keystore : KeyStore
  threshold : Nat
  expiry : Nat
  keyCount : Nat
  enoughKeys : threshold ≤ keyCount
  deriving DecidableEq, Repr

def ROOT_POLICY : RolePolicy := ⟨ROOT, .OFFLINE, 3, 365, 5, by decide⟩
def TARGETS_POLICY : RolePolicy := ⟨TARGETS, .OFFLINE, 2, 90, 3, by decide⟩
def SNAPSHOT_POLICY : RolePolicy := ⟨SNAPSHOT, .ONLINE, 1, 7, 1, by decide⟩
def TIMESTAMP_POLICY : RolePolicy := ⟨TIMESTAMP, .ONLINE, 1, 1, 1, by decide⟩

def TOP_LEVEL_POLICIES : List (String × RolePolicy) :=
  [ROOT_POLICY, TARGETS_POLICY, SNAPSHOT_POLICY, TIMESTAMP_POLICY].map fun p => (p.name, p)

def APP_ROLE_EXPIRY := 14

def appRolePolicy (appId : String) (critical : Bool) : Except ValueError RolePolicy := do
  let name ← appRoleName appId
  return ⟨name, if critical then .OFFLINE else .ONLINE, 1, APP_ROLE_EXPIRY, 1, by decide⟩

/-! ## What the application id check lets through -/

theorem appRoleName_eq_ok {appId role : String} :
    appRoleName appId = .ok role ↔ appIdMatches appId = true ∧ role = APP_ROLE_PREFIX ++ appId := by
  unfold appRoleName
  split <;> grind

theorem appRoleName_injective {a b role : String} (ha : appRoleName a = .ok role)
    (hb : appRoleName b = .ok role) : a = b := by
  rw [appRoleName_eq_ok] at ha hb
  have h := congrArg String.toList (ha.2.symm.trans hb.2)
  simpa [String.toList_append, String.toList_inj] using h

theorem appIdRest_of_first {c : Char} (h : appIdFirst c = true) : appIdRest c = true := by
  simp [appIdRest, h]

theorem appIdBody_chars {cs : List Char} (h : appIdBody cs = true) :
    ∀ c ∈ cs, appIdRest c = true := by
  cases cs with
  | nil => simp
  | cons c cs =>
    simp only [appIdBody, Bool.and_eq_true, List.all_eq_true] at h
    intro d hd
    rcases List.mem_cons.mp hd with rfl | hd
    · exact appIdRest_of_first h.1.1.1
    · exact h.1.1.2 d hd

/-- Every character of an accepted id is in the narrow set, or is the line feed that `$`
lets stand at the end. -/
theorem appIdMatches_chars {appId : String} (h : appIdMatches appId = true) :
    ∀ c ∈ appId.toList, appIdRest c = true ∨ c = '\n' :=
  Text.endsAnchored_chars (fun _ => appIdBody_chars) h

/-- No accepted id contains a path separator or a glob metacharacter. -/
theorem appIdMatches_plain {appId : String} (h : appIdMatches appId = true) {c : Char}
    (hc : c ∈ appId.toList) : c ≠ '/' ∧ c ≠ '*' ∧ c ≠ '?' := by
  rcases appIdMatches_chars h c hc with hc | rfl
  · refine ⟨?_, ?_, ?_⟩ <;> rintro rfl <;> exact absurd hc (by decide)
  · decide

/-- `$` is not `\Z`: the check also accepts an id that ends in a line feed. -/
example : appIdMatches "editor\n" = true := by decide

theorem appRolePolicy_eq_ok {appId : String} {critical : Bool} {policy : RolePolicy}
    (h : appRolePolicy appId critical = .ok policy) :
    appRoleName appId = .ok policy.name ∧ policy.threshold = 1 ∧
      policy.keystore = if critical then .OFFLINE else .ONLINE := by
  unfold appRolePolicy at h
  cases hn : appRoleName appId with
  | error e => simp [hn, bind, Except.bind] at h
  | ok name =>
    simp only [hn, bind, Except.bind, pure, Except.pure, Except.ok.injEq] at h
    subst h
    exact ⟨rfl, rfl, rfl⟩

end DistPlatform.Core
