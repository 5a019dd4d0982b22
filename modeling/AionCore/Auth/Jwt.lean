import AionCore.Lib.Dict

/-!
# Authentication: login tokens

`JwtService` of `jwt.rs`. What it uses of the token library is a parameter: encoding under a secret,
the check of a signature and the hash of a token. `decode` follows the library's order: the
signature, then the expiry with its leeway, then issuer and audience.
-/

namespace AionCore.Auth

/-- The claims embedded in a token; times are in seconds. -/
structure TokenPayload where
  userId : String
  username : String
  iat : ℕ
  exp : ℕ
  iss : String
  aud : String
  deriving DecidableEq

/-- Why a token is not decoded: its expiry, or another reason by its text. -/
inductive JwtError where
  | expiredSignature
  | other (text : String)
  deriving DecidableEq

inductive AuthError where
  | tokenExpired
  | tokenInvalid (message : String)
  | tokenBlacklisted
  deriving DecidableEq

/-- The token library. A signature is valid under the secret it was made with and under no other,
and no two tokens have the same hash. -/
structure JwtLib (Token Digest : Type*) where
  encode : String → TokenPayload → Token
  signed : String → Token → Except String TokenPayload
  tokenHash : Token → Digest
  signed_encode : ∀ secret claims, signed secret (encode secret claims) = .ok claims
  signed_other : ∀ secret secret' claims claims', secret' ≠ secret →
    signed secret' (encode secret claims) ≠ .ok claims'
  hash_injective : Function.Injective tokenHash

structure Validation where
  validateExp : Bool
  leeway : ℕ
  iss : List String
  aud : List String

namespace Validation

def default : Validation := ⟨true, 60, [], []⟩

def setIssuer (v : Validation) (iss : List String) : Validation := { v with iss := iss }

def setAudience (v : Validation) (aud : List String) : Validation := { v with aud := aud }

end Validation

def tokenExpiry : ℕ := 24 * 60 * 60

def jwtIssuer : String := "aionui"

def jwtAudience : String := "aionui-webui"

def validation : Validation := (Validation.default.setIssuer [jwtIssuer]).setAudience [jwtAudience]

namespace JwtLib

variable {Token Digest : Type*} (lib : JwtLib Token Digest)

def decode (v : Validation) (secret : String) (token : Token) (now : ℕ) :
    Except JwtError TokenPayload :=
  match lib.signed secret token with
  | .error text => .error (.other text)
  | .ok claims =>
    if v.validateExp && v.leeway + claims.exp < now then .error .expiredSignature
    else if claims.iss ∉ v.iss then .error (.other "InvalidIssuer")
    else if claims.aud ∉ v.aud then .error (.other "InvalidAudience")
    else .ok claims

/-- Tokens that carry their secret and their claims, each its own hash. -/
def plain : JwtLib (String × TokenPayload) (String × TokenPayload) where
  encode := Prod.mk
  signed secret token := if token.1 = secret then .ok token.2 else .error "InvalidSignature"
  tokenHash := id
  signed_encode _ _ := if_pos rfl
  signed_other secret secret' claims claims' hne h := by
    rw [if_neg (Ne.symm hne)] at h
    cases h
  hash_injective := Function.injective_id

end JwtLib

def resolveJwtSecret (envSecret dbSecret : Option String) (fresh : String) : String × Bool :=
  match envSecret, dbSecret with
  | some s, _ => (s, false)
  | none, some s => (s, false)
  | none, none => (fresh, true)

/-- The secret and the blacklisted hashes with their expiry. -/
structure JwtService (Digest : Type*) where
  secret : String
  blacklist : Dict Digest ℕ

namespace JwtService

variable {Token Digest : Type*} (lib : JwtLib Token Digest)

def new (secret : String) : JwtService Digest := ⟨secret, ∅⟩

variable (s : JwtService Digest) (token : Token) (now : ℕ)

/-- The claims of a token that is signed now. -/
def claims (userId username : String) (now : ℕ) : TokenPayload :=
  ⟨userId, username, now, now + tokenExpiry, jwtIssuer, jwtAudience⟩

def sign (userId username : String) : Token := lib.encode s.secret (claims userId username now)

def accepts (secret : String) (token : Token) (now : ℕ) : Bool :=
  (lib.decode validation secret token now).isOk

section

variable {lib s token now} {secret : String} {claims : TokenPayload} {t : ℕ}

theorem decode_eq_ok {v : Validation} : lib.decode v secret token now = .ok claims ↔
    lib.signed secret token = .ok claims ∧
      (v.validateExp = true → now ≤ v.leeway + claims.exp) ∧ claims.iss ∈ v.iss ∧
        claims.aud ∈ v.aud := by
  unfold JwtLib.decode
  cases hsigned : lib.signed secret token with
  | error text => simp
  | ok payload =>
    simp only [Except.ok.injEq, Bool.and_eq_true, decide_eq_true_eq]
    split
    · -- the expiry is over
      rename_i hexp
      refine ⟨fun h => (by cases h), ?_⟩
      rintro ⟨rfl, hlate, -⟩
      have := hlate hexp.1
      omega
    · rename_i hexp
      have hlate : v.validateExp = true → now ≤ v.leeway + payload.exp := fun hv =>
        Nat.not_lt.mp fun hlt => hexp ⟨hv, hlt⟩
      split
      · rename_i hiss
        refine ⟨fun h => (by cases h), ?_⟩
        rintro ⟨rfl, -, hin, -⟩
        exact absurd hin hiss
      · rename_i hiss
        split
        · rename_i haud
          refine ⟨fun h => (by cases h), ?_⟩
          rintro ⟨rfl, -, -, hin⟩
          exact absurd hin haud
        · rename_i haud
          refine ⟨fun h => ?_, fun h => by rw [h.1]⟩
          obtain rfl := Except.ok.inj h
          exact ⟨rfl, hlate, not_not.mp hiss, not_not.mp haud⟩

theorem accepts_eq_true : accepts lib secret token now = true ↔
    ∃ claims, lib.decode validation secret token now = .ok claims := by
  unfold accepts
  cases lib.decode validation secret token now with
  | ok payload => simp [Except.isOk, Except.toBool]
  | error e => simp [Except.isOk, Except.toBool]

theorem accepts_earlier (h : accepts lib secret token t = true) (hnow : now ≤ t) :
    accepts lib secret token now = true := by
  obtain ⟨claims, hclaims⟩ := accepts_eq_true.mp h
  obtain ⟨hsigned, hexp, hiss, haud⟩ := decode_eq_ok.mp hclaims
  exact accepts_eq_true.mpr ⟨claims, decode_eq_ok.mpr
    ⟨hsigned, fun hv => Nat.le_trans hnow (hexp hv), hiss, haud⟩⟩

theorem not_accepts_other (h : secret ≠ s.secret) {userId username : String} :
    accepts lib secret (s.sign lib t userId username) now = false := by
  rw [Bool.eq_false_iff]
  intro hacc
  obtain ⟨claims, hclaims⟩ := accepts_eq_true.mp hacc
  exact lib.signed_other _ _ _ _ h (decode_eq_ok.mp hclaims).1

theorem decode_sign {userId username : String} (h : now ≤ t + tokenExpiry) :
    lib.decode validation s.secret (s.sign lib t userId username) now =
      .ok (JwtService.claims userId username t) :=
  decode_eq_ok.mpr ⟨lib.signed_encode _ _, fun _ => Nat.le_trans h (Nat.le_add_left _ 60),
    List.mem_singleton_self _, List.mem_singleton_self _⟩

end

variable [DecidableEq Digest]

def verify : Except AuthError TokenPayload :=
  if (s.blacklist.lookup (lib.tokenHash token)).isSome then .error .tokenBlacklisted
  else
    match lib.decode validation s.secret token now with
    | .ok claims => .ok claims
    | .error .expiredSignature => .error .tokenExpired
    | .error (.other text) => .error (.tokenInvalid ("JWT verification failed: " ++ text))

def extractExpiry : Option ℕ :=
  match lib.decode { validation with validateExp := false } s.secret token now with
  | .ok claims => some claims.exp
  | .error _ => none

def blacklistToken : JwtService Digest :=
  let exp := (s.extractExpiry lib token now).getD (now + tokenExpiry)
  { s with blacklist := s.blacklist.insert (lib.tokenHash token) exp }

/-- The new secret is for the database too. -/
def rotateSecret (_s : JwtService Digest) (newSecret : String) : JwtService Digest :=
  ⟨newSecret, ∅⟩

def cleanupBlacklist : JwtService Digest :=
  { s with blacklist := s.blacklist.retain fun _ exp => now < exp }

variable {lib s token now} {claims : TokenPayload}

theorem verify_eq_ok : s.verify lib token now = .ok claims ↔
    s.blacklist.lookup (lib.tokenHash token) = none ∧
      lib.decode validation s.secret token now = .ok claims := by
  unfold verify
  cases hlookup : s.blacklist.lookup (lib.tokenHash token) with
  | some exp => simp
  | none =>
    rw [if_neg (by simp)]
    cases hdecode : lib.decode validation s.secret token now with
    | ok payload => simp
    | error e => cases e <;> simp

/-- The token is not let in at that time or later. -/
def Dead (lib : JwtLib Token Digest) (s : JwtService Digest) (now : ℕ) (token : Token) : Prop :=
  ∀ t claims, now ≤ t → s.verify lib token t ≠ .ok claims

theorem dead_iff : s.Dead lib now token ↔
    s.blacklist.lookup (lib.tokenHash token) ≠ none ∨ accepts lib s.secret token now = false := by
  constructor
  · intro h
    by_cases hlookup : s.blacklist.lookup (lib.tokenHash token) = none
    · refine .inr (Bool.eq_false_iff.mpr fun hacc => ?_)
      obtain ⟨claims, hclaims⟩ := accepts_eq_true.mp hacc
      exact h now claims (Nat.le_refl now) (verify_eq_ok.mpr ⟨hlookup, hclaims⟩)
    · exact .inl hlookup
  · rintro h t claims ht hverify
    obtain ⟨hlookup, hclaims⟩ := verify_eq_ok.mp hverify
    obtain h | h := h
    · exact h hlookup
    · have hacc := accepts_earlier (accepts_eq_true.mpr ⟨claims, hclaims⟩) ht
      rw [h] at hacc
      cases hacc

end JwtService

end AionCore.Auth
