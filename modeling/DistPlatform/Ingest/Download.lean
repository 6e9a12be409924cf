import DistPlatform.Ingest.Sources

/-!
# Downloads from a forge (`dist_ingest.forge`)

A download follows redirects by hand: each hop is checked against the allowed hosts before it is
requested. What the servers answer is arbitrary, and may depend on all requests so far.

## Main definitions

* `stream` — `_stream`: the requests made, the chunks written to the sink, and the result.
* `Controlled` — what holds of every download.
-/

namespace DistPlatform.Ingest

def MAX_REDIRECTS := 5

structure UrlParts where
  scheme : String
  hostname : Option String
  deriving DecidableEq, Repr

/-- What downloads use of Python's URLs: `urlsplit`, `str.lower` and `httpx.URL.join`. -/
structure Urls where
  urlsplit : String → Except String UrlParts
  lower : String → String
  join : String → String → Except String String

/-- `body` is what `iter_bytes` yields; it may break off. -/
structure Response where
  status : Nat
  location : Option String
  body : List (Except String Bytes)
  deriving DecidableEq

def Response.isRedirect (response : Response) : Bool :=
  300 ≤ response.status && response.status ≤ 399

/-- What a download did. -/
structure Transfer where
  requests : List String
  written : List Bytes
  result : Except JobError Nat
  deriving DecidableEq

section Stream

variable (urls : Urls)

def hostOf (url : String) : Except JobError String :=
  match urls.urlsplit url with
  | .error exception => .error (.Other exception)
  | .ok parts =>
    if parts.scheme ≠ "https" then
      .error (.ForgeError ⟨"refusing a non-HTTPS URL: " ++ Text.quoted url⟩)
    else match parts.hostname with
      | none | some "" => .error (.ForgeError ⟨"URL has no host: " ++ Text.quoted url⟩)
      | some hostname => .ok (urls.lower hostname)

/-- The loop over `iter_bytes`; the chunk that goes over the cap is not written. -/
def copyBody (maxBytes : Nat) : List (Except String Bytes) → Nat → List Bytes × Except JobError Nat
  | [], written => ([], .ok written)
  | .error exception :: _, _ => ([], .error (.Other exception))
  | .ok chunk :: body, written =>
    if maxBytes < written + chunk.length then
      ([], .error (.ForgeError ⟨"asset exceeds the " ++ toString maxBytes ++ " byte cap"⟩))
    else
      let rest := copyBody maxBytes body (written + chunk.length)
      (chunk :: rest.1, rest.2)

variable (server : List String → Except String Response) (allowedHosts : List String)
  (maxBytes : Nat) (label : String)

/-- The `for _ in range(MAX_REDIRECTS + 1)` loop, with the requests made so far. -/
def streamFrom : Nat → String → List String → Transfer
  | 0, _, requests =>
    ⟨requests, [], .error (.ForgeError ⟨"too many redirects fetching " ++ Text.quoted label⟩)⟩
  | hops + 1, url, requests =>
    match hostOf urls url with
    | .error e => ⟨requests, [], .error e⟩
    | .ok host =>
      if host ∉ allowedHosts then
        ⟨requests, [], .error (.ForgeError ⟨"refusing to download from " ++ Text.quoted host ++
          ", which is not allowlisted"⟩)⟩
      else match server (requests ++ [url]) with
        | .error exception => ⟨requests ++ [url], [], .error (.Other exception)⟩
        | .ok response =>
          if response.isRedirect then
            match response.location with
            | none | some "" =>
              ⟨requests ++ [url], [], .error (.ForgeError ⟨"redirect without a location header"⟩)⟩
            | some location => match urls.join url location with
              | .error exception => ⟨requests ++ [url], [], .error (.Other exception)⟩
              | .ok next => streamFrom hops next (requests ++ [url])
          else if response.status ≠ 200 then
            ⟨requests ++ [url], [], .error (.ForgeError
              ⟨"asset download returned HTTP " ++ toString response.status⟩)⟩
          else
            let copied := copyBody maxBytes response.body 0
            ⟨requests ++ [url], copied.1, copied.2⟩

/-- `_stream`. -/
def stream (url : String) : Transfer :=
  streamFrom urls server allowedHosts maxBytes label (MAX_REDIRECTS + 1) url []

end Stream

/-! ## What holds of every download -/

/-- An https URL whose host is allowed. -/
def Permitted (urls : Urls) (allowedHosts : List String) (url : String) : Prop :=
  ∃ parts hostname, urls.urlsplit url = .ok parts ∧ parts.scheme = "https" ∧
    parts.hostname = some hostname ∧ urls.lower hostname ∈ allowedHosts

structure Controlled (urls : Urls) (server : List String → Except String Response)
    (allowedHosts : List String) (maxBytes : Nat) (transfer : Transfer) : Prop where
  permitted : ∀ url ∈ transfer.requests, Permitted urls allowedHosts url
  count : transfer.requests.length ≤ MAX_REDIRECTS + 1
  bytes : transfer.written.flatten.length ≤ maxBytes
  complete : ∀ n, transfer.result = .ok n →
    ∃ before url response, transfer.requests = before ++ [url] ∧
      server transfer.requests = .ok response ∧ response.status = 200 ∧
      response.body = transfer.written.map .ok ∧ transfer.written.flatten.length = n

section

variable {urls : Urls} {server : List String → Except String Response}
  {allowedHosts : List String} {maxBytes : Nat} {label url host : String}

theorem permitted_of_hostOf (h : hostOf urls url = .ok host) (hallowed : host ∈ allowedHosts) :
    Permitted urls allowedHosts url := by
  unfold hostOf at h
  split at h
  · cases h
  next parts hparts =>
    split at h
    · cases h
    next hscheme =>
      split at h
      · cases h
      · cases h
      next hostname _ hhostname =>
        obtain rfl := Except.ok.inj h
        exact ⟨parts, hostname, hparts, not_not.mp hscheme, hhostname, hallowed⟩

/-- Never more than the cap, and all of the body where it says so. -/
theorem copyBody_spec {body : List (Except String Bytes)} {written : Nat}
    (hwritten : written ≤ maxBytes) :
    written + (copyBody maxBytes body written).1.flatten.length ≤ maxBytes ∧
      ∀ n, (copyBody maxBytes body written).2 = .ok n →
        body = (copyBody maxBytes body written).1.map .ok ∧
          written + (copyBody maxBytes body written).1.flatten.length = n := by
  induction body generalizing written with
  | nil => exact ⟨hwritten, fun n h => ⟨rfl, Except.ok.inj h⟩⟩
  | cons chunk body ih =>
    cases chunk with
    | error exception => exact ⟨hwritten, nofun⟩
    | ok chunk =>
      rw [copyBody]
      split
      · exact ⟨hwritten, nofun⟩
      next hfits =>
        obtain ⟨hbytes, hcomplete⟩ := ih (Nat.not_lt.mp hfits)
        dsimp only
        rw [List.flatten_cons, List.length_append, ← Nat.add_assoc]
        refine ⟨hbytes, fun n h => ?_⟩
        obtain ⟨hbody, hlength⟩ := hcomplete n h
        exact ⟨by rw [List.map_cons, ← hbody], hlength⟩

/-- From a state of the loop in which every request so far was permitted. -/
theorem streamFrom_controlled {hops : Nat} {requests : List String}
    (hpermitted : ∀ url ∈ requests, Permitted urls allowedHosts url)
    (hcount : requests.length + hops ≤ MAX_REDIRECTS + 1) :
    Controlled urls server allowedHosts maxBytes
      (streamFrom urls server allowedHosts maxBytes label hops url requests) := by
  induction hops generalizing url requests with
  | zero => exact ⟨hpermitted, hcount, Nat.zero_le _, nofun⟩
  | succ hops ih =>
    have hbefore : requests.length ≤ MAX_REDIRECTS + 1 := by omega
    rw [streamFrom]
    split
    · exact ⟨hpermitted, hbefore, Nat.zero_le _, nofun⟩
    next host hhost =>
      split
      · exact ⟨hpermitted, hbefore, Nat.zero_le _, nofun⟩
      next hallowed =>
        have hnext : ∀ other ∈ requests ++ [url], Permitted urls allowedHosts other := by
          intro other hother
          obtain hother | hother := List.mem_append.mp hother
          · exact hpermitted other hother
          · rw [List.mem_singleton.mp hother]
            exact permitted_of_hostOf hhost (not_not.mp hallowed)
        have hlength : (requests ++ [url]).length = requests.length + 1 := by simp
        have hfits : (requests ++ [url]).length ≤ MAX_REDIRECTS + 1 := by omega
        split
        · exact ⟨hnext, hfits, Nat.zero_le _, nofun⟩
        next response hresponse =>
          split
          · split
            · exact ⟨hnext, hfits, Nat.zero_le _, nofun⟩
            · exact ⟨hnext, hfits, Nat.zero_le _, nofun⟩
            · split
              · exact ⟨hnext, hfits, Nat.zero_le _, nofun⟩
              · exact ih hnext (by omega)
          · split
            · exact ⟨hnext, hfits, Nat.zero_le _, nofun⟩
            next hstatus =>
              obtain ⟨hbytes, hcomplete⟩ := @copyBody_spec _ response.body _ (Nat.zero_le maxBytes)
              rw [Nat.zero_add] at hbytes
              refine ⟨hnext, hfits, hbytes, fun n hn => ?_⟩
              obtain ⟨hbody, hn⟩ := hcomplete n hn
              exact ⟨requests, url, response, rfl, hresponse, not_not.mp hstatus, hbody,
                by rwa [Nat.zero_add] at hn⟩

end

/-- Whatever the servers answer, a download asks allowed https hosts only, a bounded number of
times, writes no more than the cap, and returns a length only where one answer was written in
full. -/
theorem stream_controlled (urls : Urls) (server : List String → Except String Response)
    (allowedHosts : List String) (maxBytes : Nat) (label url : String) :
    Controlled urls server allowedHosts maxBytes
      (stream urls server allowedHosts maxBytes label url) :=
  streamFrom_controlled (by simp) (Nat.le_of_eq (Nat.zero_add _))

end DistPlatform.Ingest
