import AionCore.Conversation.StreamRelay

/-!
# Agents: runtime tokens

`RuntimeTokenService` of `runtime_token.rs`: the tokens with which the agent of a team calls back.
They live until they are invalidated. Random bytes and SHA-256 are a source of tokens that never
repeat and a hash that tells them apart; the time of issue, which nothing reads, is left out.
-/

namespace AionCore.Agent

open AionCore.Conversation (trim)

def teamRuntimeTokenSessionGeneration : String := "default"

inductive RuntimeTokenScope where
  | teamContext
  | teamCall
  deriving DecidableEq

def RuntimeTokenScope.asStr : RuntimeTokenScope → String
  | .teamContext => "team:context"
  | .teamCall => "team:call"

structure RuntimeTokenClaims where
  userId : String
  conversationId : String
  scopes : Finset RuntimeTokenScope
  sessionGeneration : String
  deriving DecidableEq

structure RuntimeTokenIssue where
  token : String
  claims : RuntimeTokenClaims

inductive RuntimeTokenError where
  | missing
  | unknown
  | userMismatch
  | conversationMismatch
  | scopeMissing
  | generationMismatch
  deriving DecidableEq

structure RuntimeTokenEntry where
  token : String
  claims : RuntimeTokenClaims

/-- `generate_token` and `token_hash`. A token is hexadecimal, so trimming keeps it. -/
structure TokenSource where
  generate : Supply String
  tokenHash : String → String
  hash_injective : Function.Injective tokenHash
  trim_generate : ∀ n, trim (generate.draw n) = generate.draw n
  generate_ne : ∀ n, generate.draw n ≠ ""

/-- The tokens `x`, `xx`, `xxx` and so on, each its own hash. -/
def TokenSource.tally : TokenSource where
  generate := .tally
  tokenHash := id
  hash_injective := Function.injective_id
  trim_generate n := by
    have hkept : (List.replicate (n + 1) 'x').dropWhile AionCore.Conversation.isWhitespace =
        List.replicate (n + 1) 'x' := rfl
    simp only [trim, Supply.tally, Supply.tallyOf, String.toList_ofList, hkept,
      List.reverse_replicate]
  generate_ne n := by
    intro h
    have := congrArg String.length h
    simp [Supply.tally, Supply.tallyOf] at this

structure RuntimeTokenService where
  tokens : Dict String RuntimeTokenEntry
  generated : ℕ

namespace RuntimeTokenService

def new : RuntimeTokenService := ⟨∅, 0⟩

variable (source : TokenSource) (s : RuntimeTokenService)

def existingToken (userId conversationId sessionGeneration : String)
    (scopes : Finset RuntimeTokenScope) : Option RuntimeTokenIssue :=
  s.tokens.values.findSome? fun entry =>
    if entry.claims.userId = userId ∧ entry.claims.conversationId = conversationId ∧
        entry.claims.sessionGeneration = sessionGeneration ∧ scopes ⊆ entry.claims.scopes then
      some ⟨entry.token, entry.claims⟩
    else none

def invalidateConversation (userId conversationId : String) : RuntimeTokenService :=
  { s with tokens := s.tokens.retain fun _ entry =>
      !(entry.claims.userId = userId && entry.claims.conversationId = conversationId) }

def invalidateConversationId (conversationId : String) : RuntimeTokenService :=
  { s with tokens := s.tokens.retain fun _ entry =>
      entry.claims.conversationId ≠ conversationId }

def invalidateGeneration (conversationId sessionGeneration : String) : RuntimeTokenService :=
  { s with tokens := s.tokens.retain fun _ entry =>
      !(entry.claims.conversationId = conversationId &&
        entry.claims.sessionGeneration = sessionGeneration) }

def issue (userId conversationId sessionGeneration : String)
    (scopes : Finset RuntimeTokenScope) : RuntimeTokenService × RuntimeTokenIssue :=
  match s.existingToken userId conversationId sessionGeneration scopes with
  | some existing => (s, existing)
  | none =>
    let token := source.generate.draw s.generated
    let claims : RuntimeTokenClaims := ⟨userId, conversationId, scopes, sessionGeneration⟩
    let s' := s.invalidateConversation claims.userId claims.conversationId
    (⟨s'.tokens.insert (source.tokenHash token) ⟨token, claims⟩, s.generated + 1⟩, ⟨token, claims⟩)

def validate (rawToken : Option String) (userId conversationId : String)
    (scope : RuntimeTokenScope) (sessionGeneration : String) :
    Except RuntimeTokenError RuntimeTokenClaims :=
  match (rawToken.map trim).filter (· ≠ "") with
  | none => .error .missing
  | some raw =>
    match s.tokens.lookup (source.tokenHash raw) with
    | none => .error .unknown
    | some entry =>
      if entry.claims.userId ≠ userId then .error .userMismatch
      else if entry.claims.conversationId ≠ conversationId then .error .conversationMismatch
      else if scope ∉ entry.claims.scopes then .error .scopeMissing
      else if entry.claims.sessionGeneration ≠ sessionGeneration then .error .generationMismatch
      else .ok entry.claims

def Holds (token : String) (claims : RuntimeTokenClaims) : Prop :=
  s.tokens.lookup (source.tokenHash token) = some ⟨token, claims⟩

def WellKept : Prop :=
  ∀ key entry, s.tokens.lookup key = some entry →
    key = source.tokenHash entry.token ∧ source.generate.Drawn s.generated entry.token

variable {source s} {userId conversationId sessionGeneration token : String}
  {scopes : Finset RuntimeTokenScope} {claims : RuntimeTokenClaims}

theorem WellKept.drawn (hkept : s.WellKept source) (h : s.Holds source token claims) :
    source.generate.Drawn s.generated token :=
  (hkept _ _ h).2

theorem trim_of_drawn {n : ℕ} (h : source.generate.Drawn n token) :
    trim token = token ∧ token ≠ "" := by
  obtain ⟨k, -, rfl⟩ := h
  exact ⟨source.trim_generate k, source.generate_ne k⟩

variable {scope : RuntimeTokenScope}

/-- What is presented is accepted exactly if it is, trimmed, a token that is held, for what it was
issued for. -/
theorem validate_ok_iff_holds (hkept : s.WellKept source) {raw : Option String} :
    s.validate source raw userId conversationId scope sessionGeneration = .ok claims ↔
      ∃ text, raw = some text ∧ s.Holds source (trim text) claims ∧ claims.userId = userId ∧
        claims.conversationId = conversationId ∧ scope ∈ claims.scopes ∧
        claims.sessionGeneration = sessionGeneration := by
  cases raw with
  | none => simp [validate]
  | some text =>
    simp only [Option.some.injEq, exists_eq_left']
    by_cases hblank : trim text = ""
    · have hraw : ((some text).map trim).filter (· ≠ "") = none := by simp [hblank]
      unfold validate
      rw [hraw]
      refine iff_of_false (by simp) fun h => ?_
      exact (trim_of_drawn (hkept.drawn h.1)).2 hblank
    · have hraw : ((some text).map trim).filter (· ≠ "") = some (trim text) := by simp [hblank]
      unfold validate Holds
      rw [hraw]
      dsimp only
      cases hlookup : s.tokens.lookup (source.tokenHash (trim text)) with
      | none => simp
      | some entry =>
        have htoken : entry.token = trim text :=
          (source.hash_injective (hkept _ _ hlookup).1).symm
        obtain ⟨token', claims'⟩ := entry
        obtain rfl : token' = trim text := htoken
        dsimp only
        constructor
        · intro h
          split at h
          · cases h
          · split at h
            · cases h
            · split at h
              · cases h
              · split at h
                · cases h
                · rename_i huser hconversation hscope hgeneration
                  obtain rfl := Except.ok.inj h
                  exact ⟨rfl, not_not.mp huser, not_not.mp hconversation, not_not.mp hscope,
                    not_not.mp hgeneration⟩
        · rintro ⟨h, rfl, rfl, hscope, rfl⟩
          obtain rfl : claims' = claims := congrArg RuntimeTokenEntry.claims (Option.some.inj h)
          simp [hscope]

theorem validate_ok_iff (hkept : s.WellKept source) {n : ℕ}
    (hdrawn : source.generate.Drawn n token) :
    s.validate source (some token) userId conversationId scope sessionGeneration = .ok claims ↔
      s.Holds source token claims ∧ claims.userId = userId ∧
        claims.conversationId = conversationId ∧ scope ∈ claims.scopes ∧
        claims.sessionGeneration = sessionGeneration := by
  rw [validate_ok_iff_holds hkept]
  simp only [Option.some.injEq, exists_eq_left', (trim_of_drawn hdrawn).1]

theorem holds_unique {claims' : RuntimeTokenClaims} (h : s.Holds source token claims)
    (h' : s.Holds source token claims') : claims = claims' :=
  congrArg RuntimeTokenEntry.claims (Option.some.inj (h.symm.trans h'))

theorem wellKept_new : new.WellKept source := fun key entry h => by cases h

@[simp] theorem holds_invalidateConversationId :
    (s.invalidateConversationId conversationId).Holds source token claims ↔
      s.Holds source token claims ∧ claims.conversationId ≠ conversationId := by
  unfold Holds invalidateConversationId
  rw [Dict.lookup_retain, Option.filter_eq_some_iff]
  simp

theorem WellKept.invalidateConversationId (hkept : s.WellKept source) (conversationId : String) :
    (s.invalidateConversationId conversationId).WellKept source := by
  intro key entry h
  unfold RuntimeTokenService.invalidateConversationId at h
  rw [Dict.lookup_retain, Option.filter_eq_some_iff] at h
  exact hkept key entry h.1

theorem existingToken_some {issue : RuntimeTokenIssue} (hkept : s.WellKept source)
    (h : s.existingToken userId conversationId sessionGeneration scopes = some issue) :
    s.Holds source issue.token issue.claims ∧ issue.claims.userId = userId ∧
      issue.claims.conversationId = conversationId ∧
      issue.claims.sessionGeneration = sessionGeneration ∧ scopes ⊆ issue.claims.scopes := by
  obtain ⟨entry, hentry, hissue⟩ := List.exists_of_findSome?_eq_some h
  obtain ⟨key, hkey⟩ := Dict.mem_values.mp hentry
  split at hissue
  · rename_i hclaims
    obtain rfl := Option.some.inj hissue
    refine ⟨?_, hclaims⟩
    rw [(hkept key entry hkey).1] at hkey
    exact hkey
  · cases hissue

/-- What an issue does: it hands out a token that fits, held from then on, and generates one at
most, which drops what it replaces. -/
structure Issues (source : TokenSource) (s s' : RuntimeTokenService)
    (userId conversationId sessionGeneration : String) (scopes : Finset RuntimeTokenScope)
    (issue : RuntimeTokenIssue) : Prop where
  kept : s'.WellKept source
  holds : s'.Holds source issue.token issue.claims
  user : issue.claims.userId = userId
  conversation : issue.claims.conversationId = conversationId
  generation : issue.claims.sessionGeneration = sessionGeneration
  granted : scopes ⊆ issue.claims.scopes
  generated : s.generated ≤ s'.generated
  old : ∀ token claims, source.generate.Drawn s.generated token →
    s'.Holds source token claims → s.Holds source token claims
  fits : ∀ token claims, s.Holds source token claims →
    (claims.userId = userId → claims.conversationId = conversationId →
      claims.sessionGeneration = sessionGeneration ∧ scopes ⊆ claims.scopes) →
    s'.Holds source token claims

theorem issue_spec (hkept : s.WellKept source) (userId conversationId sessionGeneration : String)
    (scopes : Finset RuntimeTokenScope) :
    Issues source s (s.issue source userId conversationId sessionGeneration scopes).1
      userId conversationId sessionGeneration scopes
      (s.issue source userId conversationId sessionGeneration scopes).2 := by
  cases hexisting : s.existingToken userId conversationId sessionGeneration scopes with
  | some existing =>
    have hissue : s.issue source userId conversationId sessionGeneration scopes = (s, existing) := by
      simp only [issue, hexisting]
    obtain ⟨hholds, huser, hconversation, hgeneration, hscopes⟩ :=
      existingToken_some hkept hexisting
    rw [hissue]
    exact ⟨hkept, hholds, huser, hconversation, hgeneration, hscopes, le_rfl,
      fun _ _ _ h => h, fun _ _ h _ => h⟩
  | none =>
    let token := source.generate.draw s.generated
    let claims : RuntimeTokenClaims := ⟨userId, conversationId, scopes, sessionGeneration⟩
    let kept := (s.invalidateConversation userId conversationId).tokens
    let s' : RuntimeTokenService :=
      ⟨kept.insert (source.tokenHash token) ⟨token, claims⟩, s.generated + 1⟩
    have hissue : s.issue source userId conversationId sessionGeneration scopes =
        (s', ⟨token, claims⟩) := by
      simp only [issue, hexisting]
      rfl
    have hlookup : ∀ key, s'.tokens.lookup key =
        if key = source.tokenHash token then some ⟨token, claims⟩ else kept.lookup key :=
      fun key => Dict.lookup_insert' _ _ _ _
    have hheld : ∀ key, kept.lookup key = (s.tokens.lookup key).filter fun entry =>
        !(entry.claims.userId = userId && entry.claims.conversationId = conversationId) :=
      fun key => Dict.lookup_retain _ _ _
    have hold : ∀ key entry, kept.lookup key = some entry → s.tokens.lookup key = some entry := by
      intro key entry h
      rw [hheld, Option.filter_eq_some_iff] at h
      exact h.1
    rw [hissue]
    refine ⟨?_, ?_, rfl, rfl, rfl, subset_rfl, Nat.le_succ _, ?_, ?_⟩
    · intro key entry h
      rw [hlookup] at h
      split at h
      · rename_i hkey
        obtain rfl := Option.some.inj h
        exact ⟨hkey, source.generate.drawn_draw (Nat.lt_succ_self _)⟩
      · obtain ⟨hkey, hdrawn⟩ := hkept key entry (hold key entry h)
        exact ⟨hkey, hdrawn.mono (Nat.le_succ _)⟩
    · show s'.tokens.lookup (source.tokenHash token) = some ⟨token, claims⟩
      rw [hlookup, if_pos rfl]
    · intro token' claims' hdrawn h
      have hne : source.tokenHash token' ≠ source.tokenHash token :=
        fun he => hdrawn.ne_draw (source.hash_injective he)
      have h' : s'.tokens.lookup (source.tokenHash token') = some ⟨token', claims'⟩ := h
      rw [hlookup, if_neg hne] at h'
      exact hold _ _ h'
    · intro token' claims' h hfits
      have hne : source.tokenHash token' ≠ source.tokenHash token :=
        fun he => (hkept.drawn h).ne_draw (source.hash_injective he)
      show s'.tokens.lookup (source.tokenHash token') = some ⟨token', claims'⟩
      rw [hlookup, if_neg hne, hheld, Option.filter_eq_some_iff]
      refine ⟨h, ?_⟩
      by_contra hdropped
      have hmatch : claims'.userId = userId ∧ claims'.conversationId = conversationId := by
        simpa using hdropped
      -- an entry that fits would have been found
      have hfit := hfits hmatch.1 hmatch.2
      have hnone := List.findSome?_eq_none_iff.mp hexisting ⟨token', claims'⟩
        (Dict.mem_values.mpr ⟨_, h⟩)
      simp [hmatch, hfit] at hnone

end RuntimeTokenService

end AionCore.Agent
