import AionCore.Lib.Dict
import AionCore.Lib.Machine
import AionCore.Lib.Registry

/-!
# MCP servers: OAuth logins

`McpOAuthService` with its one pending slot. A login is split at the discovery, the bind of
its callback server, the store of the pending state, the callback and its check, the take of
the pending state, the token request, the store of the token and the final clearing; a
`get_token` that refreshes at its discovery, request and store. What the others answer, failures
and the clock come with the steps.
-/

namespace AionCore.Mcp

inductive McpError where
  | oauth (message : String)
  | database (message : String)

/-- `Display` of `McpError`. -/
def McpError.display : McpError → String
  | .oauth message => "OAuth error: " ++ message
  | .database message => message

/-- `EXPIRY_MARGIN_MS`. -/
def expiryMarginMs : ℤ := 5 * 60 * 1000

structure OAuthServerMetadata where
  authorizationEndpoint : String
  tokenEndpoint : String

/-- `trim_end_matches('/')`. -/
def trimEndSlashes (url : String) : String :=
  String.ofList (url.toList.reverse.dropWhile (· = '/')).reverse

/-- `discover_endpoints`; `fetch` is what a URL answers now, none for no metadata. -/
def discoverEndpoints (fetch : String → Option OAuthServerMetadata) (serverUrl : String) :
    Except McpError OAuthServerMetadata :=
  let base := trimEndSlashes serverUrl
  match fetch (base ++ "/.well-known/oauth-authorization-server") with
  | some metadata => .ok metadata
  | none =>
    match fetch (base ++ "/.well-known/openid-configuration") with
    | some metadata => .ok metadata
    | none => .error (.oauth ("Failed to discover OAuth endpoints for '" ++ serverUrl ++
        "': no .well-known/oauth-authorization-server or " ++
        ".well-known/openid-configuration found"))

/-- `u8::from_str_radix` of two characters in base 16, which takes a leading plus sign. -/
def hexByte (h l : UInt8) : Option UInt8 :=
  let digit := fun b : UInt8 =>
    if 48 ≤ b ∧ b ≤ 57 then some (b - 48)
    else if 97 ≤ b ∧ b ≤ 102 then some (b - 87)
    else if 65 ≤ b ∧ b ≤ 70 then some (b - 55)
    else none
  match digit l with
  | none => none
  | some lo => if h = 43 then some lo else (digit h).map fun hi => hi * 16 + lo

/-- The loop of `url_decode`; every byte is pushed as a character of its own. -/
def urlDecodeBytes : List UInt8 → List Char
  | [] => []
  | b :: rest =>
    if b = 37 then
      match rest with
      | h :: l :: rest =>
        match hexByte h l with
        | some byte => Char.ofUInt8 byte :: urlDecodeBytes rest
        | none => '%' :: Char.ofUInt8 h :: Char.ofUInt8 l :: urlDecodeBytes rest
      | _ => []
    else if b = 43 then ' ' :: urlDecodeBytes rest
    else Char.ofUInt8 b :: urlDecodeBytes rest

def urlDecode (input : String) : String := String.ofList (urlDecodeBytes input.toUTF8.toList)

/-- `char::is_whitespace`. -/
def isWhitespace (c : Char) : Bool :=
  (9 ≤ c.toNat ∧ c.toNat ≤ 13) ∨ c.toNat = 0x20 ∨ c.toNat = 0x85 ∨ c.toNat = 0xA0 ∨
    c.toNat = 0x1680 ∨ (0x2000 ≤ c.toNat ∧ c.toNat ≤ 0x200A) ∨ c.toNat = 0x2028 ∨
    c.toNat = 0x2029 ∨ c.toNat = 0x202F ∨ c.toNat = 0x205F ∨ c.toNat = 0x3000

/-- `str::split_once` at a character. -/
def splitOnce (c : Char) (text : List Char) : Option (List Char × List Char) :=
  match text.dropWhile (· ≠ c) with
  | [] => none
  | _ :: rest => some (text.takeWhile (· ≠ c), rest)

def firstLine (request : List Char) : Option (List Char) :=
  if request = [] then none
  else
    let line := request.takeWhile (· ≠ '\n')
    if line.getLast? = some '\r' ∧ line.length < request.length then some line.dropLast
    else some line

def secondWord (line : List Char) : Option (List Char) :=
  let afterFirst := (line.dropWhile isWhitespace).dropWhile (!isWhitespace ·)
  let word := (afterFirst.dropWhile isWhitespace).takeWhile (!isWhitespace ·)
  if word = [] then none else some word

def queryValue (name : String) (pairs : List (List Char)) : Option String :=
  (pairs.reverse.findSome? fun pair => (splitOnce '=' pair).bind fun kv =>
    if kv.1 = name.toList then some kv.2 else none).map fun value =>
      urlDecode (String.ofList value)

/-- `parse_callback_query`. -/
def parseCallbackQuery (request : String) : Except McpError (String × String) :=
  match firstLine request.toList with
  | none => .error (.oauth "Empty HTTP request")
  | some line =>
    match secondWord line with
    | none => .error (.oauth "Malformed HTTP request line")
    | some path =>
      match splitOnce '?' path with
      | none => .error (.oauth "No query parameters in callback")
      | some (_, query) =>
        let pairs := query.splitOn '&'
        match queryValue "code" pairs with
        | none => .error (.oauth "Missing 'code' in callback")
        | some code =>
          match queryValue "state" pairs with
          | none => .error (.oauth "Missing 'state' in callback")
          | some state => .ok (code, state)

/-- What the service takes from elsewhere: the random tokens of the logins, pairwise
distinct, and the parser of URLs with its error text. -/
structure OAuthCrates where
  csrfToken : Supply String
  pkceVerifier : Supply String
  parseUrl : String → Except String Unit

/-- `PendingLogin`, with the number of the login that stored it. -/
structure PendingLogin where
  login : ℕ
  csrfToken : String
  pkceVerifier : String
  authUrl : String
  tokenUrl : String
  redirectUrl : String

/-- A row of the token table under its server URL. -/
structure TokenRow where
  accessToken : String
  refreshToken : Option String
  tokenType : String
  expiresAt : Option ℤ

structure TokenResponse where
  accessToken : String
  refreshToken : Option String
  expiresInMs : Option ℤ

/-- The row that `persist_token` stores. -/
def TokenResponse.row (t : TokenResponse) (now : ℤ) : TokenRow where
  accessToken := t.accessToken
  refreshToken := t.refreshToken
  tokenType := "bearer"
  expiresAt := t.expiresInMs.map (now + ·)

/-- `OAuthLoginResponse`. -/
structure LoginResponse where
  success : Bool
  error : Option String

/-- Where a call of `login` stands. -/
inductive LoginStage where
  | discovering
  | binding (metadata : OAuthServerMetadata)
  | storing (metadata : OAuthServerMetadata) (redirectUrl : String)
  | waiting
  | received (code : String)
  | exchanging (exchange : ℕ)
  | persisting (exchange : ℕ) (row : TokenRow)
  | clearing (error : String)
  | returned (result : Except McpError LoginResponse)

def LoginStage.failed : LoginStage → Bool
  | .returned (.error _) => true
  | .returned (.ok response) => !response.success
  | _ => false

def LoginStage.early : LoginStage → Bool
  | .discovering => true
  | .binding _ => true
  | .storing _ _ => true
  | _ => false

def LoginStage.hasCode : LoginStage → Bool
  | .received _ => true
  | _ => false

def LoginStage.isClearing : LoginStage → Bool
  | .clearing _ => true
  | _ => false

def LoginStage.exchange : LoginStage → Option ℕ
  | .exchanging x => some x
  | .persisting x _ => some x
  | _ => none

/-- The task of a callback server. -/
inductive CallbackStage where
  | idle
  | listening
  | checking (code state : String)
  | done (result : Except McpError String)

/-- The state parameter that a callback server is about to validate. -/
def CallbackStage.state : CallbackStage → Option String
  | .checking _ state => some state
  | _ => none

/-- A call of `login`, with the pending state that it stored, the state parameter that its
accepted code arrived with, and the other login that took or cleared its pending state. -/
structure Login where
  serverUrl : String
  stage : LoginStage
  callback : CallbackStage
  offered : Option PendingLogin
  arrived : Option String
  lostTo : Option ℕ

/-- A token request of a login: the code with the state parameter that it arrived with, what it
is sent with, and the URL under which the token is stored. -/
structure Exchange where
  login : ℕ
  code : String
  state : Option String
  tokenUrl : String
  verifier : String
  redirectUrl : String
  storedUnder : Option String
  deriving DecidableEq

inductive RefreshStage where
  | discovering (row : TokenRow) (refreshToken : String)
  | requesting (row : TokenRow) (refreshToken tokenUrl : String)
  | storing (row fresh : TokenRow)
  | returned (result : Except McpError (Option String))

def RefreshStage.isStoring : RefreshStage → Bool
  | .storing _ _ => true
  | _ => false

/-- A call of `get_token`. -/
structure Refresh where
  serverUrl : String
  stage : RefreshStage

/-- How a write of the token table ends: whether the row is there, and the error. -/
structure DbOutcome where
  stored : Bool
  error : Option String

/-- The service with its calls. `loggedOut` are the servers of which a logout has returned Ok
and no login has stored a token since. -/
structure McpOAuthService where
  pending : Option PendingLogin
  tokens : Dict String TokenRow
  logins : List Login
  refreshes : List Refresh
  exchanges : List Exchange
  loggedOut : List String

inductive OAuthStep where
  | login (serverUrl : String)
  | discover (k : ℕ) (fetch : String → Option OAuthServerMetadata)
  | bind (k : ℕ) (port : Except String UInt16)
  | store (k : ℕ)
  | receive (k : ℕ) (request : Except String String)
  | check (k : ℕ)
  | deliver (k : ℕ)
  | timeOut (k : ℕ)
  | take (k : ℕ) (client : Except String Unit)
  | respond (k : ℕ) (response : Except String TokenResponse) (now : ℤ)
  | persist (k : ℕ) (outcome : DbOutcome)
  | clear (k : ℕ)
  | getToken (serverUrl : String) (now : ℤ) (error : Option String)
  | refreshDiscover (r : ℕ) (fetch : String → Option OAuthServerMetadata)
  | refreshRespond (r : ℕ) (response : Except String TokenResponse) (now : ℤ)
  | refreshStore (r : ℕ) (outcome : DbOutcome)
  | logout (serverUrl : String) (error : Option String)

namespace McpOAuthService

/-- A service that has just started, over the tokens stored. -/
def new (tokens : Dict String TokenRow) : McpOAuthService where
  pending := none
  tokens := tokens
  logins := []
  refreshes := []
  exchanges := []
  loggedOut := []

variable (crates : OAuthCrates)

def setLogin (w : McpOAuthService) (k : ℕ) (l : Login) : McpOAuthService :=
  { w with logins := w.logins.set k l }

def setRefresh (w : McpOAuthService) (r : ℕ) (stage : RefreshStage) : McpOAuthService :=
  { w with refreshes := w.refreshes.modify r fun call => { call with stage := stage } }

/-- The pending slot is emptied by login `k`; another login whose state was there has lost it. -/
def emptyPending (w : McpOAuthService) (k : ℕ) : McpOAuthService :=
  match w.pending with
  | some p =>
    { w with
      pending := none
      logins := if p.login = k then w.logins
        else w.logins.modify p.login fun l => { l with lostTo := some k } }
  | none => w

def login (w : McpOAuthService) (serverUrl : String) : McpOAuthService :=
  { w with logins := w.logins ++ [⟨serverUrl, .discovering, .idle, none, none, none⟩] }

/-- The endpoints are known: `prepare_login_flow` parses them. -/
def checkEndpoints (metadata : OAuthServerMetadata) : Except McpError Unit :=
  match crates.parseUrl metadata.authorizationEndpoint with
  | .error e => .error (.oauth ("Invalid auth URL: " ++ e))
  | .ok () =>
    match crates.parseUrl metadata.tokenEndpoint with
    | .error e => .error (.oauth ("Invalid token URL: " ++ e))
    | .ok () => .ok ()

def discover (w : McpOAuthService) (k : ℕ) (fetch : String → Option OAuthServerMetadata) :
    McpOAuthService :=
  match w.logins[k]? with
  | some l =>
    match l.stage with
    | .discovering =>
      match discoverEndpoints fetch l.serverUrl with
      | .error e => w.setLogin k { l with stage := .returned (.error e) }
      | .ok metadata =>
        match checkEndpoints crates metadata with
        | .error e => w.setLogin k { l with stage := .returned (.error e) }
        | .ok () => w.setLogin k { l with stage := .binding metadata }
    | _ => w
  | none => w

def bind (w : McpOAuthService) (k : ℕ) (port : Except String UInt16) : McpOAuthService :=
  match w.logins[k]? with
  | some l =>
    match l.stage with
    | .binding metadata =>
      match port with
      | .error e => w.setLogin k { l with
          stage := .returned (.error (.oauth ("Failed to bind callback server: " ++ e))) }
      | .ok port =>
        let redirectUrl := "http://127.0.0.1:" ++ toString port.toNat ++ "/callback"
        match crates.parseUrl redirectUrl with
        | .error e =>
          w.setLogin k { l with
            stage := .returned (.error (.oauth ("Invalid redirect URL: " ++ e))) }
        | .ok () => w.setLogin k { l with stage := .storing metadata redirectUrl }
    | _ => w
  | none => w

/-- The pending state that login `k` stores. -/
def pendingOf (k : ℕ) (metadata : OAuthServerMetadata) (redirectUrl : String) : PendingLogin where
  login := k
  csrfToken := crates.csrfToken.draw k
  pkceVerifier := crates.pkceVerifier.draw k
  authUrl := metadata.authorizationEndpoint
  tokenUrl := metadata.tokenEndpoint
  redirectUrl := redirectUrl

/-- The pending state is stored, the browser opened and the callback server started. -/
def store (w : McpOAuthService) (k : ℕ) : McpOAuthService :=
  match w.logins[k]? with
  | some l =>
    match l.stage with
    | .storing metadata redirectUrl =>
      let p := pendingOf crates k metadata redirectUrl
      { w.setLogin k { l with stage := .waiting, callback := .listening, offered := some p } with
        pending := some p }
    | _ => w
  | none => w

/-- The callback server accepts a connection and reads it. -/
def receive (w : McpOAuthService) (k : ℕ) (request : Except String String) : McpOAuthService :=
  match w.logins[k]? with
  | some l =>
    match l.callback with
    | .listening =>
      match request with
      | .error e => w.setLogin k { l with callback := .done (.error (.oauth e)) }
      | .ok text =>
        match parseCallbackQuery text with
        | .error e => w.setLogin k { l with callback := .done (.error e) }
        | .ok (code, state) => w.setLogin k { l with callback := .checking code state }
    | _ => w
  | none => w

/-- The callback server validates the state parameter, under the lock. -/
def check (w : McpOAuthService) (k : ℕ) : McpOAuthService :=
  match w.logins[k]? with
  | some l =>
    match l.callback with
    | .checking code state =>
      match w.pending with
      | none =>
        w.setLogin k { l with callback := .done (.error (.oauth "No pending login state")) }
      | some p =>
        if state ≠ p.csrfToken then
          w.setLogin k { l with callback := .done (.error (.oauth "CSRF state mismatch")) }
        else w.setLogin k { l with callback := .done (.ok code), arrived := some state }
    | _ => w
  | none => w

/-- `wait_for_callback` returns the result of the callback server. -/
def deliver (w : McpOAuthService) (k : ℕ) : McpOAuthService :=
  match w.logins[k]? with
  | some l =>
    match l.stage, l.callback with
    | .waiting, .done (.ok code) => w.setLogin k { l with stage := .received code }
    | .waiting, .done (.error e) => w.setLogin k { l with stage := .clearing e.display }
    | _, _ => w
  | none => w

/-- `wait_for_callback` gives up; its callback server goes on. -/
def timeOut (w : McpOAuthService) (k : ℕ) : McpOAuthService :=
  match w.logins[k]? with
  | some l =>
    match l.stage with
    | .waiting => w.setLogin k { l with
        stage := .clearing (McpError.oauth
          "OAuth callback timed out — no redirect received within 120s").display }
    | _ => w
  | none => w

/-- `exchange_code` up to its token request. -/
def take (w : McpOAuthService) (k : ℕ) (client : Except String Unit) : McpOAuthService :=
  match w.logins[k]? with
  | some l =>
    match l.stage with
    | .received code =>
      match w.pending with
      | none => w.setLogin k { l with
          stage := .clearing (McpError.oauth "No pending login state").display }
      | some p =>
        match client with
        | .error e => (w.emptyPending k).setLogin k { l with
            stage := .clearing (McpError.oauth ("Failed to build HTTP client: " ++ e)).display }
        | .ok () =>
          let request : Exchange :=
            ⟨k, code, l.arrived, p.tokenUrl, p.pkceVerifier, p.redirectUrl, none⟩
          { (w.emptyPending k).setLogin k { l with stage := .exchanging w.exchanges.length } with
            exchanges := w.exchanges ++ [request] }
    | _ => w
  | none => w

/-- The token endpoint answers. -/
def respond (w : McpOAuthService) (k : ℕ) (response : Except String TokenResponse) (now : ℤ) :
    McpOAuthService :=
  match w.logins[k]? with
  | some l =>
    match l.stage with
    | .exchanging x =>
      match response with
      | .error e => w.setLogin k { l with
          stage := .clearing (McpError.oauth ("Token exchange failed: " ++ e)).display }
      | .ok t => w.setLogin k { l with stage := .persisting x (t.row now) }
    | _ => w
  | none => w

/-- `persist_token`, after which a login that has stored its token returns. -/
def persist (w : McpOAuthService) (k : ℕ) (outcome : DbOutcome) : McpOAuthService :=
  match w.logins[k]? with
  | some l =>
    match l.stage with
    | .persisting x row =>
      let stage := match outcome.error with
        | none => .returned (.ok ⟨true, none⟩)
        | some e => .clearing (McpError.database e).display
      let w := w.setLogin k { l with stage := stage }
      if outcome.stored then
        { w with
          tokens := w.tokens.insert l.serverUrl row
          exchanges := w.exchanges.modify x fun e => { e with storedUnder := some l.serverUrl }
          loggedOut := w.loggedOut.filter (· ≠ l.serverUrl) }
      else w
    | _ => w
  | none => w

/-- `clear_pending`, after which the login returns its error. -/
def clear (w : McpOAuthService) (k : ℕ) : McpOAuthService :=
  match w.logins[k]? with
  | some l =>
    match l.stage with
    | .clearing error =>
      (w.emptyPending k).setLogin k { l with stage := .returned (.ok ⟨false, some error⟩) }
    | _ => w
  | none => w

/-- The first lines of `get_token`, up to the discovery of a refresh. -/
def getToken (w : McpOAuthService) (serverUrl : String) (now : ℤ) (error : Option String) :
    McpOAuthService :=
  let stage : RefreshStage := match error, w.tokens.lookup serverUrl with
    | some e, _ => .returned (.error (.database e))
    | none, none => .returned (.ok none)
    | none, some row =>
      match row.expiresAt, row.refreshToken with
      | some expiresAt, some refreshToken =>
        if now ≥ expiresAt - expiryMarginMs then .discovering row refreshToken
        else .returned (.ok (some row.accessToken))
      | _, _ => .returned (.ok (some row.accessToken))
  { w with refreshes := w.refreshes ++ [⟨serverUrl, stage⟩] }

/-- A refresh that fails returns the token that it read. -/
def refreshDiscover (w : McpOAuthService) (r : ℕ) (fetch : String → Option OAuthServerMetadata) :
    McpOAuthService :=
  match w.refreshes[r]? with
  | some call =>
    match call.stage with
    | .discovering row refreshToken =>
      match discoverEndpoints fetch call.serverUrl with
      | .error _ => w.setRefresh r (.returned (.ok (some row.accessToken)))
      | .ok metadata =>
        match crates.parseUrl metadata.tokenEndpoint with
        | .error _ => w.setRefresh r (.returned (.ok (some row.accessToken)))
        | .ok () => w.setRefresh r (.requesting row refreshToken metadata.tokenEndpoint)
    | _ => w
  | none => w

def refreshRespond (w : McpOAuthService) (r : ℕ) (response : Except String TokenResponse)
    (now : ℤ) : McpOAuthService :=
  match w.refreshes[r]? with
  | some call =>
    match call.stage with
    | .requesting row refreshToken _ =>
      match response with
      | .error _ => w.setRefresh r (.returned (.ok (some row.accessToken)))
      | .ok t =>
        let fresh := { t.row now with refreshToken := some (t.refreshToken.getD refreshToken) }
        w.setRefresh r (.storing row fresh)
    | _ => w
  | none => w

def refreshStore (w : McpOAuthService) (r : ℕ) (outcome : DbOutcome) : McpOAuthService :=
  match w.refreshes[r]? with
  | some call =>
    match call.stage with
    | .storing row fresh =>
      let token := match outcome.error with
        | none => fresh.accessToken
        | some _ => row.accessToken
      let w := w.setRefresh r (.returned (.ok (some token)))
      if outcome.stored then { w with tokens := w.tokens.insert call.serverUrl fresh } else w
    | _ => w
  | none => w

/-- `logout`; it fails only when the deletion does. -/
def logout (w : McpOAuthService) (serverUrl : String) (error : Option String) : McpOAuthService :=
  match error with
  | some _ => w
  | none =>
    { w with
      tokens := w.tokens.erase serverUrl
      loggedOut := serverUrl :: w.loggedOut }

def fire (w : McpOAuthService) : OAuthStep → McpOAuthService
  | .login serverUrl => w.login serverUrl
  | .discover k fetch => w.discover crates k fetch
  | .bind k port => w.bind crates k port
  | .store k => w.store crates k
  | .receive k request => w.receive k request
  | .check k => w.check k
  | .deliver k => w.deliver k
  | .timeOut k => w.timeOut k
  | .take k client => w.take k client
  | .respond k response now => w.respond k response now
  | .persist k outcome => w.persist k outcome
  | .clear k => w.clear k
  | .getToken serverUrl now error => w.getToken serverUrl now error
  | .refreshDiscover r fetch => w.refreshDiscover crates r fetch
  | .refreshRespond r response now => w.refreshRespond r response now
  | .refreshStore r outcome => w.refreshStore r outcome
  | .logout serverUrl error => w.logout serverUrl error

def machine : Machine McpOAuthService OAuthStep where
  start w := ∃ tokens, w = new tokens
  admits _ _ := True
  fire := fire crates

/-- Logins do not mix, and a token that has been logged out of stays away. -/
structure Separate (w : McpOAuthService) : Prop where
  exchanged : ∀ e ∈ w.exchanges, ∃ (j : ℕ) (l : Login) (p : PendingLogin),
    w.logins[j]? = some l ∧ l.offered = some p ∧ e.state = some (crates.csrfToken.draw j) ∧
      e.tokenUrl = p.tokenUrl ∧ e.verifier = crates.pkceVerifier.draw j ∧
      e.redirectUrl = p.redirectUrl ∧ ∀ url ∈ e.storedUnder, url = l.serverUrl
  undisturbed : ∀ l ∈ w.logins, l.stage.failed = true → l.lostTo = none
  loggedOut : ∀ url ∈ w.loggedOut, w.tokens.lookup url = none

/-- What keeps logins apart: no callback server is sent another login's pending state parameter,
a login takes and clears no other login's pending state, and no refresh stores its token after
a logout. -/
def Careful (w : McpOAuthService) : OAuthStep → Prop
  | .check k => ∀ l ∈ w.logins[k]?, ∀ p ∈ w.pending,
    l.callback.state = some p.csrfToken → p.login = k
  | .take k _ => ∀ l ∈ w.logins[k]?, l.stage.hasCode = true → ∀ p ∈ w.pending, p.login = k
  | .clear k => ∀ l ∈ w.logins[k]?, l.stage.isClearing = true → ∀ p ∈ w.pending, p.login = k
  | .refreshStore r outcome => outcome.stored = true → ∀ call ∈ w.refreshes[r]?,
    call.stage.isStoring = true → call.serverUrl ∉ w.loggedOut
  | _ => True

variable {crates : OAuthCrates} {w : McpOAuthService} {k r : ℕ}

/-- The token request of a login: its own code, state parameter and pending state. -/
structure Exchange.Own (crates : OAuthCrates) (l : Login) (e : Exchange) : Prop where
  state : e.state = some (crates.csrfToken.draw e.login)
  sent : ∃ p, l.offered = some p ∧ e.tokenUrl = p.tokenUrl ∧ e.redirectUrl = p.redirectUrl
  verifier : e.verifier = crates.pkceVerifier.draw e.login
  stored : ∀ url ∈ e.storedUnder, url = l.serverUrl

/-- A login by itself: what it offers is its own, and what it has accepted arrived with that. -/
structure Login.Sound (crates : OAuthCrates) (k : ℕ) (l : Login) : Prop where
  offered : ∀ p, l.offered = some p → p.login = k ∧ p.csrfToken = crates.csrfToken.draw k ∧
    p.pkceVerifier = crates.pkceVerifier.draw k
  early : l.stage.early = true → l.offered = none ∧ l.callback = .idle ∧ l.arrived = none
  arrived : ∀ s, l.arrived = some s → s = crates.csrfToken.draw k
  received : ∀ code, l.stage = .received code ∨ l.callback = .done (.ok code) → l.arrived ≠ none
  unlost : l.lostTo = none

structure Sound (crates : OAuthCrates) (w : McpOAuthService) : Prop where
  logins : ∀ (k : ℕ) (l : Login), w.logins[k]? = some l → Login.Sound crates k l
  pending : ∀ p, w.pending = some p → ∃ l, w.logins[p.login]? = some l ∧ l.offered = some p
  exchanges : ∀ e ∈ w.exchanges, ∃ l, w.logins[e.login]? = some l ∧ Exchange.Own crates l e
  running : ∀ (k x : ℕ) (l : Login), w.logins[k]? = some l → l.stage.exchange = some x →
    ∃ e, w.exchanges[x]? = some e ∧ e.login = k
  loggedOut : ∀ url ∈ w.loggedOut, w.tokens.lookup url = none

theorem Sound.separate (h : w.Sound crates) : w.Separate crates where
  exchanged e he := by
    obtain ⟨l, hl, hstate, ⟨p, hp, htoken, hredirect⟩, hverifier, hstored⟩ := h.exchanges e he
    exact ⟨e.login, l, p, hl, hp, hstate, htoken, hverifier, hredirect, hstored⟩
  undisturbed l hl _ := by
    obtain ⟨k, hk⟩ := List.getElem?_of_mem hl
    exact (h.logins k l hk).unlost
  loggedOut := h.loggedOut

theorem Sound.new (tokens : Dict String TokenRow) : (McpOAuthService.new tokens).Sound crates := by
  constructor <;> simp [McpOAuthService.new]

/-- A login goes on: it keeps its server, what it has offered, and its token request. -/
theorem Sound.setLogin (h : w.Sound crates) {l l' : Login} (hk : w.logins[k]? = some l)
    (hurl : l'.serverUrl = l.serverUrl) (hoffered : l'.offered = l.offered)
    (hsound : Login.Sound crates k l')
    (hrunning : ∀ x, l'.stage.exchange = some x → l.stage.exchange = some x) :
    (w.setLogin k l').Sound crates := by
  have hnew : (w.setLogin k l').logins[k]? = some l' :=
    (Registry.getElem?_replace hk).mpr (.inl ⟨rfl, rfl⟩)
  have hkeep : ∀ {j : ℕ} {c : Login}, w.logins[j]? = some c →
      ∃ c', (w.setLogin k l').logins[j]? = some c' ∧ c'.serverUrl = c.serverUrl ∧
        c'.offered = c.offered := by
    intro j c hj
    by_cases hjk : j = k
    · subst hjk
      obtain rfl : c = l := Option.some.inj (hj.symm.trans hk)
      exact ⟨l', hnew, hurl, hoffered⟩
    · exact ⟨c, (Registry.getElem?_replace hk).mpr (.inr ⟨hjk, hj⟩), rfl, rfl⟩
  constructor
  case logins =>
    intro j c hj
    rcases (Registry.getElem?_replace hk).mp hj with ⟨rfl, rfl⟩ | ⟨-, hj⟩
    · exact hsound
    · exact h.logins j c hj
  case pending =>
    intro p hp
    obtain ⟨c, hc, hcp⟩ := h.pending p hp
    obtain ⟨c', hc', -, ho⟩ := hkeep hc
    exact ⟨c', hc', ho.trans hcp⟩
  case exchanges =>
    intro e he
    obtain ⟨c, hc, hstate, hsent, hverifier, hstored⟩ := h.exchanges e he
    obtain ⟨c', hc', hurl', ho⟩ := hkeep hc
    exact ⟨c', hc', hstate, by rwa [ho], hverifier, by rwa [hurl']⟩
  case running =>
    intro j x c hj hx
    rcases (Registry.getElem?_replace hk).mp hj with ⟨rfl, rfl⟩ | ⟨-, hj⟩
    · exact h.running _ x l hk (hrunning x hx)
    · exact h.running j x c hj hx
  case loggedOut => exact h.loggedOut

variable {l : Login}

theorem Login.Sound.stage (h : Login.Sound crates k l) {stage : LoginStage}
    (hearly : stage.early = true → l.stage.early = true)
    (hreceived : ∀ code, stage = .received code → l.arrived ≠ none) :
    Login.Sound crates k { l with stage := stage } :=
  ⟨h.offered, fun he => h.early (hearly he), h.arrived, fun code hc => by
    rcases hc with hc | hc
    · exact hreceived code hc
    · exact h.received code (.inr hc), h.unlost⟩

section

variable (h : w.Sound crates)
include h

variable {stage : LoginStage}

theorem Sound.goOn (hk : w.logins[k]? = some l)
    (hearly : stage.early = true → l.stage.early = true)
    (hreceived : ∀ code, stage = .received code → l.arrived ≠ none)
    (hrunning : ∀ x, stage.exchange = some x → l.stage.exchange = some x) :
    (w.setLogin k { l with stage := stage }).Sound crates :=
  h.setLogin hk rfl rfl ((h.logins k l hk).stage hearly hreceived) hrunning

theorem Sound.finish (hk : w.logins[k]? = some l) (hearly : stage.early = false)
    (hcode : stage.hasCode = false) (hexchange : stage.exchange = none) :
    (w.setLogin k { l with stage := stage }).Sound crates :=
  h.goOn hk (by simp [hearly]) (by rintro code rfl; cases hcode) (by simp [hexchange])

theorem Sound.login (serverUrl : String) :
    (w.login serverUrl).Sound crates := by
  constructor
  case logins =>
    intro j c hj
    rcases Registry.getElem?_add.mp hj with hj | ⟨-, rfl⟩
    · exact h.logins j c hj
    · constructor <;> simp
  case pending =>
    intro p hp
    obtain ⟨c, hc, hcp⟩ := h.pending p hp
    exact ⟨c, Registry.getElem?_add_of_some hc, hcp⟩
  case exchanges =>
    intro e he
    obtain ⟨c, hc, hown⟩ := h.exchanges e he
    exact ⟨c, Registry.getElem?_add_of_some hc, hown⟩
  case running =>
    intro j x c hj hx
    rcases Registry.getElem?_add.mp hj with hj | ⟨-, rfl⟩
    · exact h.running j x c hj hx
    · cases hx
  case loggedOut => exact h.loggedOut

theorem Sound.discover (k : ℕ) (fetch : String → Option OAuthServerMetadata) :
    (w.discover crates k fetch).Sound crates := by
  rw [McpOAuthService.discover]
  split
  · rename_i l hk
    split
    · rename_i hstage
      split
      · exact h.finish hk rfl rfl rfl
      · split
        · exact h.finish hk rfl rfl rfl
        · exact h.goOn hk (by simp [hstage, LoginStage.early]) (by simp)
            (by simp [LoginStage.exchange])
    · exact h
  · exact h

theorem Sound.bind (k : ℕ) (port : Except String UInt16) :
    (w.bind crates k port).Sound crates := by
  rw [McpOAuthService.bind]
  split
  · rename_i l hk
    split
    · rename_i hstage
      split
      · exact h.finish hk rfl rfl rfl
      · dsimp only
        split
        · exact h.finish hk rfl rfl rfl
        · exact h.goOn hk (by simp [hstage, LoginStage.early]) (by simp)
            (by simp [LoginStage.exchange])
    · exact h
  · exact h

theorem Sound.store (k : ℕ) : (w.store crates k).Sound crates := by
  rw [McpOAuthService.store]
  split
  · rename_i l hk
    split
    · rename_i metadata redirectUrl hstage
      obtain ⟨hnone, hidle, harrived⟩ := (h.logins k l hk).early (by rw [hstage]; rfl)
      have hunlost := (h.logins k l hk).unlost
      constructor
      case logins =>
        intro j c hj
        rcases (Registry.getElem?_replace hk).mp hj with ⟨rfl, rfl⟩ | ⟨-, hj⟩
        · refine ⟨fun p hp => ?_, by simp [LoginStage.early], by simp [harrived], by simp, hunlost⟩
          obtain rfl := Option.some.inj hp
          exact ⟨rfl, rfl, rfl⟩
        · exact h.logins j c hj
      case pending =>
        intro p hp
        obtain rfl := Option.some.inj hp
        exact ⟨_, (Registry.getElem?_replace hk).mpr (.inl ⟨rfl, rfl⟩), rfl⟩
      case exchanges =>
        intro e he
        obtain ⟨c, hc, hown⟩ := h.exchanges e he
        refine ⟨c, (Registry.getElem?_replace hk).mpr (.inr ⟨fun he => ?_, hc⟩), hown⟩
        -- a login that has stored nothing yet has sent nothing
        rw [he, hk] at hc
        obtain ⟨p, hp, -⟩ := hown.sent
        rw [← Option.some.inj hc, hnone] at hp
        cases hp
      case running =>
        intro j x c hj hx
        rcases (Registry.getElem?_replace hk).mp hj with ⟨rfl, rfl⟩ | ⟨-, hj⟩
        · cases hx
        · exact h.running j x c hj hx
      case loggedOut => exact h.loggedOut
    · exact h
  · exact h

/-- The callback server of a login goes on; a code that it accepts arrived with the state
parameter of the login. -/
theorem Sound.setCallback (hk : w.logins[k]? = some l) (hrunning : l.callback ≠ .idle)
    {callback : CallbackStage} {arrived : Option String}
    (harrived : ∀ s, arrived = some s → s = crates.csrfToken.draw k)
    (hkeep : l.arrived ≠ none → arrived ≠ none)
    (haccepted : ∀ code, callback = .done (.ok code) → arrived ≠ none) :
    (w.setLogin k { l with callback := callback, arrived := arrived }).Sound crates := by
  have hl := h.logins k l hk
  refine h.setLogin hk rfl rfl ⟨hl.offered, fun he => ?_, harrived, fun code hc => ?_, hl.unlost⟩
    fun _ hx => hx
  · exact absurd (hl.early he).2.1 hrunning
  · rcases hc with hc | hc
    · exact hkeep (hl.received code (.inl hc))
    · exact haccepted code hc

theorem Sound.receive (k : ℕ) (request : Except String String) :
    (w.receive k request).Sound crates := by
  rw [McpOAuthService.receive]
  split
  · rename_i l hk
    have harrived := (h.logins k l hk).arrived
    split
    · rename_i hcallback
      have hrunning : l.callback ≠ .idle := by simp [hcallback]
      split
      · exact h.setCallback hk hrunning harrived (fun hs => hs) (by simp)
      · split
        · exact h.setCallback hk hrunning harrived (fun hs => hs) (by simp)
        · exact h.setCallback hk hrunning harrived (fun hs => hs) (by simp)
    · exact h
  · exact h

theorem Sound.check
    (hstep : ∀ l ∈ w.logins[k]?, ∀ p ∈ w.pending,
    l.callback.state = some p.csrfToken → p.login = k) : (w.check k).Sound crates := by
  rw [McpOAuthService.check]
  split
  · rename_i l hk
    have harrived := (h.logins k l hk).arrived
    split
    · rename_i code state hcallback
      have hrunning : l.callback ≠ .idle := by simp [hcallback]
      split
      · exact h.setCallback hk hrunning harrived (fun hs => hs) (by simp)
      · rename_i p hp
        split
        · exact h.setCallback hk hrunning harrived (fun hs => hs) (by simp)
        · rename_i hsame
          obtain rfl : state = p.csrfToken := Decidable.not_not.mp hsame
          have hlogin : p.login = k := hstep l hk p hp (by rw [hcallback]; rfl)
          obtain ⟨l', hl', hoffered⟩ := h.pending p hp
          have htoken := ((h.logins p.login l' hl').offered p hoffered).2.1
          rw [hlogin] at htoken
          exact h.setCallback hk hrunning (fun s hs => (Option.some.inj hs).symm.trans htoken)
            (by simp) (by simp)
    · exact h
  · exact h

theorem Sound.deliver (k : ℕ) : (w.deliver k).Sound crates := by
  rw [McpOAuthService.deliver]
  split
  · rename_i l hk
    split
    · rename_i code hstage hcallback
      exact h.goOn hk (by simp [LoginStage.early])
        (fun c _ => (h.logins k l hk).received code (.inr hcallback))
        (by simp [LoginStage.exchange])
    · exact h.finish hk rfl rfl rfl
    · exact h
  · exact h

theorem Sound.timeOut (k : ℕ) : (w.timeOut k).Sound crates := by
  rw [McpOAuthService.timeOut]
  split
  · rename_i l hk
    split
    · exact h.finish hk rfl rfl rfl
    · exact h
  · exact h

end

theorem emptyPending_own (hown : ∀ p ∈ w.pending, p.login = k) :
    w.emptyPending k = { w with pending := none } := by
  obtain ⟨pending, tokens, logins, refreshes, exchanges, loggedOut⟩ := w
  cases pending with
  | none => rfl
  | some p =>
    rw [emptyPending]
    simp [hown p rfl]

section

variable (h : w.Sound crates)
include h

theorem Sound.noPending :
    ({ w with pending := none } : McpOAuthService).Sound crates :=
  ⟨h.logins, by simp, h.exchanges, h.running, h.loggedOut⟩

theorem Sound.take {client : Except String Unit}
    (hstep : ∀ l ∈ w.logins[k]?, l.stage.hasCode = true → ∀ p ∈ w.pending, p.login = k) :
    (w.take k client).Sound crates := by
  rw [McpOAuthService.take]
  split
  · rename_i l hk
    split
    · rename_i code hstage
      have hown := hstep l hk (by rw [hstage]; rfl)
      split
      · exact h.finish hk rfl rfl rfl
      · rename_i p hp
        rw [emptyPending_own hown]
        split
        · exact h.noPending.finish hk rfl rfl rfl
        · have hl := h.logins k l hk
          obtain ⟨l', hl', hoffered⟩ := h.pending p hp
          rw [hown p hp, hk] at hl'
          rw [← Option.some.inj hl'] at hoffered
          obtain ⟨s, hs⟩ := Option.ne_none_iff_exists'.mp (hl.received code (.inl hstage))
          have hsound : Login.Sound crates k { l with stage := .exchanging w.exchanges.length } :=
            hl.stage (by simp [LoginStage.early]) (by simp)
          constructor
          case logins =>
            intro j c hj
            rcases (Registry.getElem?_replace hk).mp hj with ⟨rfl, rfl⟩ | ⟨-, hj⟩
            · exact hsound
            · exact h.logins j c hj
          case pending => simp [McpOAuthService.setLogin]
          case exchanges =>
            intro e he
            rcases List.mem_append.mp he with he | he
            · obtain ⟨c, hc, hown⟩ := h.exchanges e he
              by_cases hjk : e.login = k
              · rw [hjk, hk] at hc
                rw [← Option.some.inj hc] at hown
                exact ⟨_, (Registry.getElem?_replace hk).mpr (.inl ⟨hjk, rfl⟩), hown.state,
                  hown.sent, hown.verifier, hown.stored⟩
              · exact ⟨c, (Registry.getElem?_replace hk).mpr (.inr ⟨hjk, hc⟩), hown⟩
            · rw [List.mem_singleton.mp he]
              refine ⟨_, (Registry.getElem?_replace hk).mpr (.inl ⟨rfl, rfl⟩), ?_,
                ⟨p, hoffered, rfl, rfl⟩, (hl.offered p hoffered).2.2, by simp⟩
              rw [hs, hl.arrived s hs]
          case running =>
            intro j x c hj hx
            rcases (Registry.getElem?_replace hk).mp hj with ⟨rfl, rfl⟩ | ⟨-, hj⟩
            · obtain rfl := Option.some.inj hx
              exact ⟨_, Registry.getElem?_add.mpr (.inr ⟨rfl, rfl⟩), rfl⟩
            · obtain ⟨e, he, hlogin⟩ := h.running j x c hj hx
              exact ⟨e, Registry.getElem?_add_of_some he, hlogin⟩
          case loggedOut => exact h.loggedOut
    · exact h
  · exact h

theorem Sound.respond (k : ℕ) (response : Except String TokenResponse) (now : ℤ) :
    (w.respond k response now).Sound crates := by
  rw [McpOAuthService.respond]
  split
  · rename_i l hk
    split
    · rename_i x hstage
      split
      · exact h.finish hk rfl rfl rfl
      · exact h.goOn hk (by simp [LoginStage.early]) (by simp)
          (by simp [hstage, LoginStage.exchange])
    · exact h
  · exact h

/-- The token of a request is stored under the server of its login. -/
theorem Sound.stored {x : ℕ} {e : Exchange} (hk : w.logins[k]? = some l)
    (hx : w.exchanges[x]? = some e) (he : e.login = k) (row : TokenRow) : Sound crates { w with
      tokens := w.tokens.insert l.serverUrl row
      exchanges := w.exchanges.modify x fun e => { e with storedUnder := some l.serverUrl }
      loggedOut := w.loggedOut.filter (· ≠ l.serverUrl) } := by
  refine { h with exchanges := fun e' he' => ?_, running := fun j y c hj hy => ?_,
                  loggedOut := fun url hurl => ?_ }
  · obtain ⟨y, hy⟩ := List.getElem?_of_mem he'
    rcases Registry.getElem?_change.mp hy with ⟨rfl, e₀, hx₀, rfl⟩ | ⟨-, hy⟩
    · obtain rfl : e = e₀ := Option.some.inj (hx.symm.trans hx₀)
      obtain ⟨c, hc, hown⟩ := h.exchanges e (List.mem_of_getElem? hx)
      refine ⟨c, hc, hown.state, hown.sent, hown.verifier, fun url hurl => ?_⟩
      rw [he, hk] at hc
      rw [← Option.some.inj hc]
      exact (Option.some.inj hurl).symm
    · exact h.exchanges e' (List.mem_of_getElem? hy)
  · obtain ⟨e', he', hlogin⟩ := h.running j y c hj hy
    by_cases hyx : y = x
    · exact ⟨_, Registry.getElem?_change.mpr (.inl ⟨hyx, e', hyx ▸ he', rfl⟩), hlogin⟩
    · exact ⟨e', Registry.getElem?_change.mpr (.inr ⟨hyx, he'⟩), hlogin⟩
  · obtain ⟨hin, hne⟩ := List.mem_filter.mp hurl
    have hne : url ≠ l.serverUrl := by simpa using hne
    rw [Dict.lookup_insert', if_neg hne]
    exact h.loggedOut url hin

theorem Sound.persist (k : ℕ) (outcome : DbOutcome) :
    (w.persist k outcome).Sound crates := by
  rw [McpOAuthService.persist]
  split
  · rename_i l hk
    split
    · rename_i x row hstage
      have hgone : ∀ stage : LoginStage, stage.early = false → stage.hasCode = false →
          stage.exchange = none →
          Sound crates (if outcome.stored then
            { w.setLogin k { l with stage := stage } with
              tokens := w.tokens.insert l.serverUrl row
              exchanges := w.exchanges.modify x fun e => { e with storedUnder := some l.serverUrl }
              loggedOut := w.loggedOut.filter (· ≠ l.serverUrl) }
            else w.setLogin k { l with stage := stage }) := by
        intro stage hearly hcode hexchange
        have hset := h.finish hk hearly hcode hexchange
        split
        · obtain ⟨e, he, hlogin⟩ := h.running k x l hk (by rw [hstage]; rfl)
          have hnew : (w.setLogin k { l with stage := stage }).logins[k]? =
              some { l with stage := stage } :=
            (Registry.getElem?_replace hk).mpr (.inl ⟨rfl, rfl⟩)
          exact hset.stored hnew he hlogin row
        · exact hset
      cases herror : outcome.error with
      | none => exact hgone _ rfl rfl rfl
      | some e => exact hgone _ rfl rfl rfl
    · exact h
  · exact h

theorem Sound.clear
    (hstep : ∀ l ∈ w.logins[k]?, l.stage.isClearing = true → ∀ p ∈ w.pending, p.login = k) :
    (w.clear k).Sound crates := by
  rw [McpOAuthService.clear]
  split
  · rename_i l hk
    split
    · rename_i hstage
      rw [emptyPending_own (hstep l hk (by rw [hstage]; rfl))]
      exact h.noPending.finish hk rfl rfl rfl
    · exact h
  · exact h

theorem Sound.refreshes (refreshes : List Refresh) :
    ({ w with refreshes := refreshes } : McpOAuthService).Sound crates :=
  ⟨h.logins, h.pending, h.exchanges, h.running, h.loggedOut⟩

theorem Sound.refreshDiscover (r : ℕ) (fetch : String → Option OAuthServerMetadata) :
    (w.refreshDiscover crates r fetch).Sound crates := by
  rw [McpOAuthService.refreshDiscover]
  split
  · split
    · split
      · exact h.refreshes _
      · split <;> exact h.refreshes _
    · exact h
  · exact h

theorem Sound.refreshRespond (r : ℕ) (response : Except String TokenResponse) (now : ℤ) :
    (w.refreshRespond r response now).Sound crates := by
  rw [McpOAuthService.refreshRespond]
  split
  · split
    · split <;> exact h.refreshes _
    · exact h
  · exact h

theorem Sound.refreshStore {outcome : DbOutcome}
    (hstep : outcome.stored = true → ∀ call ∈ w.refreshes[r]?, call.stage.isStoring = true →
      call.serverUrl ∉ w.loggedOut) : (w.refreshStore r outcome).Sound crates := by
  rw [McpOAuthService.refreshStore]
  split
  · rename_i call hr
    split
    · rename_i row fresh hstage
      dsimp only
      split
      · rename_i hstored
        have hout := hstep hstored call hr (by rw [hstage]; rfl)
        refine { h with loggedOut := fun url hurl => ?_ }
        have hne : url ≠ call.serverUrl := by
          rintro rfl
          exact hout hurl
        rw [Dict.lookup_insert', if_neg hne]
        exact h.loggedOut url hurl
      · exact h.refreshes _
    · exact h
  · exact h

theorem Sound.logout (serverUrl : String) (error : Option String) :
    (w.logout serverUrl error).Sound crates := by
  cases error with
  | some e => exact h
  | none =>
    refine { h with loggedOut := fun url hurl => ?_ }
    show AList.lookup url (AList.erase serverUrl w.tokens) = none
    rw [Dict.lookup_erase']
    split
    · rfl
    · rename_i hne
      exact h.loggedOut url ((List.mem_cons.mp hurl).resolve_left hne)

theorem Sound.fire (step : OAuthStep) (hstep : Careful w step) :
    (w.fire crates step).Sound crates := by
  cases step with
  | login serverUrl => exact h.login serverUrl
  | discover k fetch => exact h.discover k fetch
  | bind k port => exact h.bind k port
  | store k => exact h.store k
  | receive k request => exact h.receive k request
  | check k => exact h.check hstep
  | deliver k => exact h.deliver k
  | timeOut k => exact h.timeOut k
  | take k client => exact h.take hstep
  | respond k response now => exact h.respond k response now
  | persist k outcome => exact h.persist k outcome
  | clear k => exact h.clear hstep
  | getToken serverUrl now error => exact h.refreshes _
  | refreshDiscover r fetch => exact h.refreshDiscover r fetch
  | refreshRespond r response now => exact h.refreshRespond r response now
  | refreshStore r outcome => exact h.refreshStore hstep
  | logout serverUrl error => exact h.logout serverUrl error

end

instance : ∀ w step, Decidable (Careful w step) := by
  intro w step
  cases step <;> dsimp only [Careful] <;> infer_instance

instance (crates : OAuthCrates) : ∀ w step, Decidable ((machine crates).admits w step) :=
  fun _ _ => .isTrue trivial

/-- Tokens of one letter each, and every URL accepted. -/
def sampleCrates : OAuthCrates where
  csrfToken := Supply.tallyOf 's'
  pkceVerifier := Supply.tallyOf 'v'
  parseUrl _ := .ok ()

def sampleFetch (url : String) : Option OAuthServerMetadata :=
  some ⟨url ++ "/authorize", url ++ "/token"⟩

/-- A login that succeeds, a refresh and a logout. -/
def sampleSteps : List OAuthStep :=
  [.login "https://a", .discover 0 sampleFetch, .bind 0 (.ok 5001), .store 0,
    .receive 0 (.ok "GET /callback?code=ca&state=s HTTP/1.1"), .check 0, .deliver 0,
    .take 0 (.ok ()), .respond 0 (.ok ⟨"ta", some "ra", some 1000⟩) 0, .persist 0 ⟨true, none⟩,
    .getToken "https://a" 900 none, .refreshDiscover 0 sampleFetch,
    .refreshRespond 0 (.ok ⟨"tb", none, some 1000⟩) 950, .refreshStore 0 ⟨true, none⟩,
    .logout "https://a" none]

def mixedSteps : List OAuthStep :=
  [.login "https://a", .discover 0 sampleFetch, .bind 0 (.ok 5001), .store 0,
    .receive 0 (.ok "GET /callback?code=ca&state=s HTTP/1.1"), .check 0,
    .login "https://b", .discover 1 sampleFetch, .bind 1 (.ok 5002), .store 1,
    .deliver 0, .take 0 (.ok ())]

def mixedExchange : Exchange where
  login := 0
  code := "ca"
  state := some (sampleCrates.csrfToken.draw 0)
  tokenUrl := "https://b/.well-known/oauth-authorization-server/token"
  verifier := sampleCrates.pkceVerifier.draw 1
  redirectUrl := "http://127.0.0.1:5002/callback"
  storedUnder := none

end McpOAuthService

end AionCore.Mcp
