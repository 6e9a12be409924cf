import DistPlatform.Ingest.Policy

/-!
# The signatures of an envelope

What the loop over the signatures makes of each entry on its own, and which entry decides. The
loop ends at the first entry that verifies or raises.

## Main definitions

* `verdict` — an entry is passed over, is a builder's, or raises.
* `Signs` — an entry carries a builder's valid signature.
* `Passes` — what an accepted statement says.
-/

namespace DistPlatform.Ingest

open Fallible

section Loop

variable {lib : Libraries} {policy : ProvenancePolicy} {message payload : Bytes} {entry : Json}
  {entries : List Json} {builder : TrustedBuilder} {statement : Json} {builderId : String}

/-- What the loop makes of one entry. -/
def verdict (lib : Libraries) (policy : ProvenancePolicy) (message : Bytes) (entry : Json) :
    Except Raised (Option TrustedBuilder) :=
  match candidate lib policy entry with
  | none => .ok none
  | some (builder, signature) =>
    match lib.loadPemPublicKey builder.publicKeyPem with
    | .error exception => .error (.Escaped exception)
    | .ok key => do
      if ← verifySignature lib key signature message then return some builder else return none

theorem trySignatures_cons :
    trySignatures lib policy message payload (entry :: entries) =
      (verdict lib policy message entry >>= fun
        | none => trySignatures lib policy message payload entries
        | some builder => statementOf lib payload >>= fun statement =>
            pure (statement, builder.builderId)) := by
  rw [trySignatures, verdict]
  cases candidate lib policy entry with
  | none => rfl
  | some found =>
    obtain ⟨builder, signature⟩ := found
    dsimp only
    cases lib.loadPemPublicKey builder.publicKeyPem with
    | error exception => rfl
    | ok key =>
      dsimp only
      cases verifySignature lib key signature message with
      | error e => rfl
      | ok good => cases good <;> rfl

/-- The loop returns through the first entry that it does not pass over. -/
theorem trySignatures_eq_ok_iff :
    trySignatures lib policy message payload entries = .ok (statement, builderId) ↔
      ∃ before entry after builder, entries = before ++ entry :: after ∧
        (∀ e ∈ before, verdict lib policy message e = .ok none) ∧
        verdict lib policy message entry = .ok (some builder) ∧
        statementOf lib payload = .ok statement ∧ builder.builderId = builderId := by
  induction entries with
  | nil =>
    refine iff_of_false nofun ?_
    rintro ⟨before, entry, after, -, hsplit, -⟩
    exact absurd hsplit.symm (List.append_ne_nil_of_right_ne_nil _ (List.cons_ne_nil _ _))
  | cons first entries ih =>
    rw [trySignatures_cons, bind_eq_ok]
    constructor
    · rintro ⟨_ | builder, hverdict, hrest⟩
      · obtain ⟨before, entry, after, builder, rfl, hbefore, hentry⟩ := ih.mp hrest
        refine ⟨first :: before, entry, after, builder, rfl, fun e he => ?_, hentry⟩
        obtain rfl | he := List.mem_cons.mp he
        · exact hverdict
        · exact hbefore e he
      · obtain ⟨found, hfound, hpure⟩ := bind_eq_ok.mp hrest
        obtain ⟨rfl, rfl⟩ := Prod.mk.inj (pure_eq_ok.mp hpure)
        exact ⟨[], first, entries, builder, rfl, nofun, hverdict, hfound, rfl⟩
    · rintro ⟨before, entry, after, builder, hsplit, hbefore, hentry, hstatement, rfl⟩
      cases before with
      | nil =>
        obtain ⟨rfl, rfl⟩ := List.cons.inj hsplit
        exact ⟨some builder, hentry, bind_eq_ok.mpr ⟨statement, hstatement, rfl⟩⟩
      | cons skipped before =>
        obtain ⟨rfl, rfl⟩ := List.cons.inj hsplit
        refine ⟨none, hbefore _ List.mem_cons_self, ih.mpr ⟨before, entry, after, builder, rfl,
          fun e he => hbefore e (List.mem_cons_of_mem _ he), hentry, hstatement, rfl⟩⟩

/-- The entry carries a signature of the builder's over the message. -/
def Signs (lib : Libraries) (message : Bytes) (entry : Json) (builder : TrustedBuilder) : Prop :=
  entry.getStr? "keyid" = some builder.keyid ∧
    ∃ encoded signature key, entry.getStr? "sig" = some encoded ∧
      lib.b64decode encoded = some signature ∧
      lib.loadPemPublicKey builder.publicKeyPem = .ok key ∧
      verifySignature lib key signature message = .ok true

/-- An entry is taken for the first builder with its key id, whose signature it carries. -/
theorem verdict_eq_some : verdict lib policy message entry = .ok (some builder) ↔
    policy.builderForKeyid builder.keyid = some builder ∧ Signs lib message entry builder := by
  unfold verdict
  constructor
  · intro h
    split at h
    · cases h
    next found signature hcandidate =>
      simp only [candidate, Option.bind_eq_bind, Option.bind_eq_some_iff] at hcandidate
      obtain ⟨keyid, hkeyid, encoded, hencoded, other, hother, decoded, hdecoded, hpair⟩ :=
        hcandidate
      obtain ⟨rfl, rfl⟩ := Prod.mk.inj (Option.some.inj hpair)
      split at h
      · cases h
      next key hkey =>
        obtain ⟨good, hgood, h⟩ := bind_eq_ok.mp h
        cases good with
        | false => cases h
        | true =>
          obtain rfl := Option.some.inj (pure_eq_ok.mp h)
          have hid := List.find?_some hother
          obtain rfl : other.keyid = keyid := by simpa using hid
          exact ⟨hother, hkeyid, encoded, decoded, key, hencoded, hdecoded, hkey, hgood⟩
  · rintro ⟨hfirst, hkeyid, encoded, signature, key, hencoded, hdecoded, hkey, hgood⟩
    have hcandidate : candidate lib policy entry = some (builder, signature) := by
      simp [candidate, hkeyid, hencoded, hfirst, hdecoded]
    simp only [hcandidate, hkey, hgood]
    rfl

theorem mem_of_builderForKeyid {keyid : String} (h : policy.builderForKeyid keyid = some builder) :
    builder ∈ policy.trustedBuilders :=
  List.mem_of_find?_eq_some h

end Loop

/-! ## The statement -/

section Statement

variable {statement : Json} {builderId artifactSha256 : String} {policy : ProvenancePolicy}
  {provenance : Provenance}

/-- `predicate.buildDefinition.resolvedDependencies`. -/
def resolvedDependencies (statement : Json) : Option (List Json) :=
  (((statement.get? "predicate").bind (·.get? "buildDefinition")).bind
    (·.get? "resolvedDependencies")).bind Json.arr?

/-- What the statement says: its types, its builder, a subject with the digest, and a dependency
from the project at a ref that is allowed. -/
structure Passes (statement : Json) (builderId artifactSha256 : String)
    (policy : ProvenancePolicy) : Prop where
  type : statement.get? "_type" = some (.str IN_TOTO_STATEMENT_V1)
  predicateType : statement.get? "predicateType" = some (.str SLSA_PROVENANCE_V1)
  builder : claimedBuilder statement = some (.str builderId)
  subject : ∃ subjects, (statement.get? "subject").bind Json.arr? = some subjects ∧
    ∃ subject ∈ subjects, (declaredDigest subject).map lower = some (lower artifactSha256)
  source : ∃ dependencies, resolvedDependencies statement = some dependencies ∧
    ∃ dependency ∈ dependencies, ∃ ref,
      dependency.getStr? "uri" = some ("git+" ++ policy.projectUrl ++ "@" ++ ref) ∧
      Text.startsWith ref policy.requireTagRefPrefix = true

theorem subject_of_subjectDigest {found : String × String}
    (h : subjectDigest statement artifactSha256 = .ok found) :
    ∃ subjects, (statement.get? "subject").bind Json.arr? = some subjects ∧
      ∃ subject ∈ subjects, (declaredDigest subject).map lower = some (lower artifactSha256) := by
  unfold subjectDigest at h
  split at h
  · cases h
  · cases h
  next subjects hsubjects _ =>
    split at h
    next subject hsubject =>
      have hdigest := List.find?_some hsubject
      exact ⟨_, by assumption, subject, List.mem_of_find?_eq_some hsubject, by simpa using hdigest⟩
    · cases h

theorem uri_of_dependencyRef {projectUrl uri ref : String} {dependency : Json}
    (h : dependencyRef projectUrl dependency = some (uri, ref)) :
    dependency.getStr? "uri" = some ("git+" ++ projectUrl ++ "@" ++ ref) := by
  simp only [dependencyRef, Option.bind_eq_bind, Option.bind_eq_some_iff] at h
  obtain ⟨found, hfound, h⟩ := h
  split at h
  next hstarts =>
    obtain ⟨rfl, rfl⟩ := Prod.mk.inj (Option.some.inj h)
    rw [hfound, Option.some.injEq, ← String.toList_inj, String.toList_append,
      String.toList_ofList]
    exact (List.prefix_append_drop (Text.startsWith_iff.mp hstarts))
  · cases h

/-- An accepted statement says all that it has to. -/
theorem passes_of_checkStatement
    (h : checkStatement statement builderId artifactSha256 policy = .ok provenance) :
    Passes statement builderId artifactSha256 policy := by
  obtain ⟨hclaim, -, -, -, hattested, hstarts⟩ := checkStatement_eq_ok h
  simp only [checkStatement, bind_eq_ok, ensure_eq_ok] at h
  obtain ⟨-, htype, -, hpredicate, -, -, found, hsubject, -⟩ := h
  refine ⟨htype, hpredicate, hclaim, subject_of_subjectDigest hsubject, ?_⟩
  unfold attestedSource at hattested
  cases hdependencies : resolvedDependencies statement with
  | none =>
    rw [resolvedDependencies] at hdependencies
    rw [hdependencies] at hattested
    cases hattested
  | some dependencies =>
    rw [resolvedDependencies] at hdependencies
    rw [hdependencies] at hattested
    obtain ⟨dependency, hmem, hfound⟩ := List.exists_of_findSome?_eq_some hattested
    exact ⟨dependencies, rfl, dependency, hmem, _, uri_of_dependencyRef hfound, hstarts⟩

end Statement

end DistPlatform.Ingest
