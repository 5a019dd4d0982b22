import AionCore.Agent.RuntimeToken
import AionCore.Lib.Histories

/-!
# Agents: histories of runtime tokens

Any calls on a `RuntimeTokenService`, one after the other, with what they have issued and
invalidated.
-/

namespace AionCore.Agent

open AionCore.Conversation (trim)

inductive TokenCall where
  | issue (userId conversationId sessionGeneration : String) (scopes : Finset RuntimeTokenScope)
  | validate (rawToken : Option String) (userId conversationId : String) (scope : RuntimeTokenScope)
    (sessionGeneration : String)
  | invalidateConversation (userId conversationId : String)
  | invalidateConversationId (conversationId : String)
  | invalidateGeneration (conversationId sessionGeneration : String)

/-- What a call has done; a validation does nothing. -/
inductive TokenEvent where
  | issued (userId conversationId sessionGeneration : String) (scopes : Finset RuntimeTokenScope)
    (issue : RuntimeTokenIssue)
  | invalidatedConversation (userId conversationId : String)
  | invalidatedConversationId (conversationId : String)
  | invalidatedGeneration (conversationId sessionGeneration : String)

namespace TokenEvent

/-- The event issues this token for the user, the conversation and the generation, with the scope
among its claims. -/
def Grants (token userId conversationId sessionGeneration : String) (scope : RuntimeTokenScope) :
    TokenEvent → Prop
  | .issued u c g _ issue => u = userId ∧ c = conversationId ∧ g = sessionGeneration ∧
      issue.token = token ∧ scope ∈ issue.claims.scopes
  | _ => False

/-- The event issues another token for the user and the conversation, or invalidates it. -/
def Ends (token userId conversationId sessionGeneration : String) : TokenEvent → Prop
  | .issued u c _ _ issue => u = userId ∧ c = conversationId ∧ issue.token ≠ token
  | .invalidatedConversation u c => u = userId ∧ c = conversationId
  | .invalidatedConversationId c => c = conversationId
  | .invalidatedGeneration c g => c = conversationId ∧ g = sessionGeneration

def Gives (token : String) (claims : RuntimeTokenClaims) : TokenEvent → Prop
  | .issued _ _ _ _ issue => issue = ⟨token, claims⟩
  | _ => False

def EndsClaims (token : String) (claims : RuntimeTokenClaims) : TokenEvent → Prop :=
  Ends token claims.userId claims.conversationId claims.sessionGeneration

/-- What is issued is for exactly who asks, with all the scopes that were asked for. -/
def Exact : TokenEvent → Prop
  | .issued u c g scopes issue => issue.claims.userId = u ∧ issue.claims.conversationId = c ∧
      issue.claims.sessionGeneration = g ∧ scopes ⊆ issue.claims.scopes
  | _ => True

end TokenEvent

/-- A service, and what was done to it. -/
structure TokenHistory where
  service : RuntimeTokenService
  events : List TokenEvent

namespace TokenHistory

def start : TokenHistory := ⟨.new, []⟩

variable (source : TokenSource)

def call (w : TokenHistory) : TokenCall → TokenHistory
  | .issue u c g scopes =>
    let (service, issue) := w.service.issue source u c g scopes
    ⟨service, w.events ++ [.issued u c g scopes issue]⟩
  | .validate _ _ _ _ _ => w
  | .invalidateConversation u c =>
    ⟨w.service.invalidateConversation u c, w.events ++ [.invalidatedConversation u c]⟩
  | .invalidateConversationId c =>
    ⟨w.service.invalidateConversationId c, w.events ++ [.invalidatedConversationId c]⟩
  | .invalidateGeneration c g =>
    ⟨w.service.invalidateGeneration c g, w.events ++ [.invalidatedGeneration c g]⟩

def run (calls : List TokenCall) : TokenHistory := calls.foldl (call source) start

end TokenHistory

namespace RuntimeTokenService

variable {source : TokenSource} {s : RuntimeTokenService}
  {userId conversationId sessionGeneration token : String} {scopes : Finset RuntimeTokenScope}
  {claims claims' : RuntimeTokenClaims}

/-- A user has at most one token in a conversation. -/
def OneEach (s : RuntimeTokenService) : Prop :=
  ∀ key entry key' entry', s.tokens.lookup key = some entry → s.tokens.lookup key' = some entry' →
    entry.claims.userId = entry'.claims.userId →
      entry.claims.conversationId = entry'.claims.conversationId → key = key'

def sweep (s : RuntimeTokenService) (p : RuntimeTokenClaims → Bool) : RuntimeTokenService :=
  { s with tokens := s.tokens.retain fun _ entry => p entry.claims }

theorem holds_sweep (p : RuntimeTokenClaims → Bool) :
    (s.sweep p).Holds source token claims ↔ s.Holds source token claims ∧ p claims = true := by
  unfold Holds sweep
  rw [Dict.lookup_retain, Option.filter_eq_some_iff]

theorem WellKept.sweep (h : s.WellKept source) (p : RuntimeTokenClaims → Bool) :
    (s.sweep p).WellKept source := by
  intro key entry hentry
  unfold RuntimeTokenService.sweep at hentry
  rw [Dict.lookup_retain, Option.filter_eq_some_iff] at hentry
  exact h key entry hentry.1

theorem OneEach.sweep (h : s.OneEach) (p : RuntimeTokenClaims → Bool) : (s.sweep p).OneEach := by
  intro key entry key' entry' hentry hentry'
  unfold RuntimeTokenService.sweep at hentry hentry'
  rw [Dict.lookup_retain, Option.filter_eq_some_iff] at hentry hentry'
  exact h key entry key' entry' hentry.1 hentry'.1

theorem issue_of_existing {issue : RuntimeTokenIssue}
    (h : s.existingToken userId conversationId sessionGeneration scopes = some issue) :
    s.issue source userId conversationId sessionGeneration scopes = (s, issue) := by
  simp only [RuntimeTokenService.issue, h]

def entered (source : TokenSource) (s : RuntimeTokenService)
    (userId conversationId sessionGeneration : String) (scopes : Finset RuntimeTokenScope) :
    RuntimeTokenIssue :=
  ⟨source.generate.draw s.generated, ⟨userId, conversationId, scopes, sessionGeneration⟩⟩

theorem issue_of_none
    (h : s.existingToken userId conversationId sessionGeneration scopes = none) :
    (s.issue source userId conversationId sessionGeneration scopes).2 =
        entered source s userId conversationId sessionGeneration scopes ∧
      ∀ key, (s.issue source userId conversationId sessionGeneration scopes).1.tokens.lookup key =
        if key = source.tokenHash (source.generate.draw s.generated) then
          some ⟨source.generate.draw s.generated,
            ⟨userId, conversationId, scopes, sessionGeneration⟩⟩
        else (s.invalidateConversation userId conversationId).tokens.lookup key := by
  simp only [RuntimeTokenService.issue, h]
  exact ⟨rfl, fun key => Dict.lookup_insert' _ _ _ _⟩

theorem OneEach.token_eq (hone : s.OneEach) {token' : String} (h : s.Holds source token claims)
    (h' : s.Holds source token' claims') (huser : claims.userId = claims'.userId)
    (hconversation : claims.conversationId = claims'.conversationId) : token = token' :=
  source.hash_injective (hone _ _ _ _ h h' huser hconversation)

/-- After an issue the token that it returned is held, and every other but those that it ends. -/
theorem issue_holds_iff (hkept : s.WellKept source) (hone : s.OneEach) :
    (s.issue source userId conversationId sessionGeneration scopes).1.Holds source token claims ↔
      (s.issue source userId conversationId sessionGeneration scopes).2 = ⟨token, claims⟩ ∨
      (s.Holds source token claims ∧ ¬(userId = claims.userId ∧
        conversationId = claims.conversationId ∧
        (s.issue source userId conversationId sessionGeneration scopes).2.token ≠ token)) := by
  cases hexisting : s.existingToken userId conversationId sessionGeneration scopes with
  | some existing =>
    obtain ⟨hholds, huser, hconversation, -⟩ := existingToken_some hkept hexisting
    rw [issue_of_existing hexisting]
    constructor
    · intro h
      by_cases hsame : userId = claims.userId ∧ conversationId = claims.conversationId
      · have htoken : existing.token = token := hone.token_eq hholds h (huser.trans hsame.1)
          (hconversation.trans hsame.2)
        obtain ⟨token', claims'⟩ := existing
        obtain rfl : token' = token := htoken
        exact .inl (congrArg (RuntimeTokenIssue.mk token') (holds_unique hholds h))
      · exact .inr ⟨h, fun hends => hsame ⟨hends.1, hends.2.1⟩⟩
    · rintro (hissue | ⟨h, -⟩)
      · obtain rfl : existing = ⟨token, claims⟩ := hissue
        exact hholds
      · exact h
  | none =>
    obtain ⟨hissue, hlookup⟩ := @issue_of_none source _ _ _ _ _ hexisting
    rw [hissue]
    unfold Holds
    rw [hlookup]
    by_cases htoken : token = source.generate.draw s.generated
    · subst htoken
      rw [if_pos rfl]
      have hnew : ¬s.tokens.lookup (source.tokenHash (source.generate.draw s.generated)) =
          some ⟨source.generate.draw s.generated, claims⟩ :=
        fun h => (hkept.drawn h).ne_draw rfl
      simp [entered, hnew]
    · have hkey : source.tokenHash token ≠
          source.tokenHash (source.generate.draw s.generated) :=
        fun h => htoken (source.hash_injective h)
      rw [if_neg hkey]
      unfold invalidateConversation
      rw [Dict.lookup_retain, Option.filter_eq_some_iff]
      simp only [entered, RuntimeTokenIssue.mk.injEq, Ne.symm htoken, false_and, false_or]
      refine and_congr_right fun _ => ?_
      rw [Bool.not_eq_true', ← Bool.not_eq_true, Bool.and_eq_true, decide_eq_true_iff,
        decide_eq_true_iff]
      exact not_congr ⟨fun h => ⟨h.1.symm, h.2.symm, Ne.symm htoken⟩,
        fun h => ⟨h.1.symm, h.2.1.symm⟩⟩

theorem OneEach.issue (hone : s.OneEach) (userId conversationId sessionGeneration : String)
    (scopes : Finset RuntimeTokenScope) :
    (s.issue source userId conversationId sessionGeneration scopes).1.OneEach := by
  cases hexisting : s.existingToken userId conversationId sessionGeneration scopes with
  | some existing => rwa [issue_of_existing hexisting]
  | none =>
    obtain ⟨-, hlookup⟩ := @issue_of_none source _ _ _ _ _ hexisting
    have hother : ∀ key entry,
        (s.invalidateConversation userId conversationId).tokens.lookup key = some entry →
        s.tokens.lookup key = some entry ∧
          ¬(entry.claims.userId = userId ∧ entry.claims.conversationId = conversationId) := by
      intro key entry h
      unfold invalidateConversation at h
      rw [Dict.lookup_retain, Option.filter_eq_some_iff] at h
      refine ⟨h.1, fun hsame => ?_⟩
      simp [hsame] at h
    intro key entry key' entry' h h' huser hconversation
    rw [hlookup] at h h'
    split at h
    · next hkey =>
      split at h'
      · next hkey' => exact hkey.trans hkey'.symm
      · obtain rfl := Option.some.inj h
        exact absurd ⟨huser.symm, hconversation.symm⟩ (hother _ _ h').2
    · split at h'
      · obtain rfl := Option.some.inj h'
        exact absurd ⟨huser, hconversation⟩ (hother _ _ h).2
      · exact hone _ _ _ _ (hother _ _ h).1 (hother _ _ h').1 huser hconversation

end RuntimeTokenService

namespace TokenHistory

open RuntimeTokenService TokenEvent History

variable {source : TokenSource} {w : TokenHistory}

/-- The service holds what stands in the history. -/
structure Inv (source : TokenSource) (w : TokenHistory) : Prop where
  kept : w.service.WellKept source
  one : w.service.OneEach
  exact : ∀ e ∈ w.events, e.Exact
  holds : ∀ token claims, w.service.Holds source token claims ↔
    Stands (Gives token claims) (EndsClaims token claims) w.events

theorem inv_start : start.Inv source where
  kept := wellKept_new
  one := fun _ _ _ _ h => by cases h
  exact := fun _ h => by cases h
  holds := fun _ _ => iff_of_false (fun h => by cases h) not_stands_nil

theorem Inv.issue (h : w.Inv source) (userId conversationId sessionGeneration : String)
    (scopes : Finset RuntimeTokenScope) :
    (w.call source (.issue userId conversationId sessionGeneration scopes)).Inv source := by
  have spec := issue_spec h.kept userId conversationId sessionGeneration scopes
  refine ⟨spec.kept, h.one.issue _ _ _ _, fun e he => ?_, fun token claims => ?_⟩
  · rcases List.mem_append.mp he with he | he
    · exact h.exact e he
    · obtain rfl := List.mem_singleton.mp he
      exact ⟨spec.user, spec.conversation, spec.generation, spec.granted⟩
  · refine (issue_holds_iff h.kept h.one).trans ?_
    rw [h.holds]
    exact Iff.symm (@stands_concat _ (Gives token claims) (EndsClaims token claims) w.events
      (.issued userId conversationId sessionGeneration scopes
        (w.service.issue source userId conversationId sessionGeneration scopes).2))

/-- An invalidation drops what it ends. -/
theorem Inv.sweep (h : w.Inv source) (p : RuntimeTokenClaims → Bool) (e : TokenEvent)
    (hexact : e.Exact) (hgives : ∀ token claims, ¬Gives token claims e)
    (hends : ∀ token claims, p claims = true ↔ ¬EndsClaims token claims e) :
    Inv source ⟨w.service.sweep p, w.events ++ [e]⟩ where
  kept := h.kept.sweep p
  one := h.one.sweep p
  exact := fun x hx => by
    rcases List.mem_append.mp hx with hx | hx
    · exact h.exact x hx
    · obtain rfl := List.mem_singleton.mp hx
      exact hexact
  holds := fun token claims => by
    rw [holds_sweep, h.holds, stands_concat, hends token claims]
    simp [hgives]

theorem Inv.call (h : w.Inv source) (c : TokenCall) : (w.call source c).Inv source := by
  cases c with
  | issue u c g scopes => exact h.issue u c g scopes
  | validate raw u c scope g => exact h
  | invalidateConversation u c =>
    refine h.sweep (fun claims => !(claims.userId = u && claims.conversationId = c))
      (.invalidatedConversation u c) trivial (fun _ _ h => h) fun token claims => ?_
    simp only [EndsClaims, Ends, Bool.not_eq_true', Bool.and_eq_false_iff, decide_eq_false_iff_not,
      not_and_or, @eq_comm _ u, @eq_comm _ c]
  | invalidateConversationId c =>
    refine h.sweep (fun claims => claims.conversationId ≠ c)
      (.invalidatedConversationId c) trivial (fun _ _ h => h) fun token claims => ?_
    simp only [EndsClaims, Ends, decide_eq_true_eq, ne_eq, @eq_comm _ c]
  | invalidateGeneration c g =>
    refine h.sweep (fun claims => !(claims.conversationId = c && claims.sessionGeneration = g))
      (.invalidatedGeneration c g) trivial (fun _ _ h => h) fun token claims => ?_
    simp only [EndsClaims, Ends, Bool.not_eq_true', Bool.and_eq_false_iff, decide_eq_false_iff_not,
      not_and_or, @eq_comm _ c, @eq_comm _ g]

theorem inv_run (calls : List TokenCall) : (run source calls).Inv source := by
  have foldl : ∀ w : TokenHistory, w.Inv source →
      (calls.foldl (TokenHistory.call source) w).Inv source := by
    induction calls with
    | nil => exact fun w h => h
    | cons c calls ih => exact fun w h => ih _ (h.call c)
  exact foldl start inv_start

/-- A token that is held grants what was issued and neither replaced nor invalidated since. -/
theorem Inv.grants_iff (h : w.Inv source) {token userId conversationId sessionGeneration : String}
    {scope : RuntimeTokenScope} :
    (∃ claims, w.service.Holds source token claims ∧ claims.userId = userId ∧
      claims.conversationId = conversationId ∧ scope ∈ claims.scopes ∧
      claims.sessionGeneration = sessionGeneration) ↔
    Stands (Grants token userId conversationId sessionGeneration scope)
      (Ends token userId conversationId sessionGeneration) w.events := by
  constructor
  · rintro ⟨claims, hholds, rfl, rfl, hscope, rfl⟩
    refine ((h.holds _ _).mp hholds).mono (fun e he hgives => ?_) fun e _ hends => hends
    cases e with
    | issued u c g scopes issue =>
      obtain rfl : issue = ⟨token, claims⟩ := hgives
      obtain ⟨huser, hconversation, hgeneration, -⟩ := h.exact _ he
      exact ⟨huser.symm, hconversation.symm, hgeneration.symm, rfl, hscope⟩
    | _ => cases hgives
  · intro hstands
    obtain ⟨before, e, after, hevents, hgrants, hkept⟩ := hstands
    cases e with
    | issued u c g scopes issue =>
      obtain ⟨rfl, rfl, rfl, rfl, hscope⟩ := hgrants
      obtain ⟨huser, hconversation, hgeneration, -⟩ :=
        h.exact (.issued u c g scopes issue) (by simp [hevents])
      refine ⟨issue.claims, (h.holds _ _).mpr ?_, huser, hconversation, hscope, hgeneration⟩
      refine ⟨before, _, after, hevents, rfl, fun x hx hends => hkept x hx ?_⟩
      rwa [EndsClaims, huser, hconversation, hgeneration] at hends
    | _ => cases hgrants

/-- A user has one token in a conversation at most, what is presented is accepted exactly for what
was issued and neither replaced nor invalidated since, and what is issued is for exactly who
asks. -/
theorem tokens_authorise_claims (source : TokenSource) (calls : List TokenCall) :
    (run source calls).service.OneEach ∧
    (∀ rawToken userId conversationId scope sessionGeneration,
      (∃ claims, (run source calls).service.validate source rawToken userId conversationId scope
        sessionGeneration = .ok claims) ↔
      ∃ text, rawToken = some text ∧
        Stands (Grants (trim text) userId conversationId sessionGeneration scope)
          (Ends (trim text) userId conversationId sessionGeneration) (run source calls).events) ∧
    ∀ userId conversationId sessionGeneration scopes,
      Exact (.issued userId conversationId sessionGeneration scopes
        ((run source calls).service.issue source userId conversationId sessionGeneration
          scopes).2) := by
  have inv : (run source calls).Inv source := inv_run calls
  refine ⟨inv.one, fun raw u c scope g => ?_, fun u c g scopes => ?_⟩
  · simp only [validate_ok_iff_holds inv.kept, ← inv.grants_iff]
    constructor
    · rintro ⟨claims, text, hraw, hgrants⟩
      exact ⟨text, hraw, claims, hgrants⟩
    · rintro ⟨text, hraw, claims, hgrants⟩
      exact ⟨claims, text, hraw, hgrants⟩
  · have spec := issue_spec inv.kept u c g scopes
    exact ⟨spec.user, spec.conversation, spec.generation, spec.granted⟩

end TokenHistory

end AionCore.Agent
