/-
ProvenoGateway/Bearer.lean

Bearer authentication (`server.rs`): the tokens of the principals, and the
layer every request passes before MCP.

A request is taken for a principal by the digest of the token it presents.
The scan of the digests goes on after a match, so the last match counts;
there is one at most, since tokens are refused at start-up if two have one
digest (`resolve_eq_ok`).
-/
import ProvenoGateway.Startup

namespace ProvenoGateway

/-! ### The tokens -/

/-- The digest of each principal's token. -/
structure Tokens where
  digests : OrdMap String Digest

def constantTimeEq (a b : Digest) : Bool :=
  (a.val.zip b.val).foldl (fun diff p => diff ||| (p.1 ^^^ p.2)) (0 : UInt8) == 0

namespace Tokens

/-- The loop over the principals, with the digests seen and whose they are. -/
def resolveAll (deps : Deps) (env : String → Option String) :
    List (String × PrincipalConfig) → List (Digest × String) → OrdMap String Digest →
      Except SetupError (OrdMap String Digest)
  | [], _, digests => .ok digests
  | (name, principal) :: rest, seen, digests => do
      let token ← (principal.token.resolve env).mapError fun e =>
        SetupError.mk (some s!"principal `{name}` token") (.config e)
      if token = "" then
        .error ⟨none, .message s!"principal `{name}` token: the token is empty"⟩
      else
        let digest := deps.sha256 token.toUTF8
        match seen.lookup digest with
        | some other =>
            .error ⟨none, .message s!"principals `{other}` and `{name}` share a token"⟩
        | none => resolveAll deps env rest ((digest, name) :: seen) (digests.insert name digest)

/-- The principals are gone through in the order of their names. -/
def resolve (deps : Deps) (env : String → Option String) (config : GatewayConfig) :
    Except SetupError Tokens := do
  .ok ⟨← resolveAll deps env (OrdMap.ofList config.principals).entries [] OrdMap.empty⟩

/-- Compares against every principal, without stopping at a match. -/
def principalFor (deps : Deps) (tokens : Tokens) (token : String) : Option String :=
  let presented := deps.sha256 token.toUTF8
  tokens.digests.entries.foldl
    (fun found e => if constantTimeEq presented e.2 then some e.1 else found) none

end Tokens

/-! ### The layer -/

/-- A request: its `Authorization` header, the body, and the principal it was
authenticated as. -/
structure HttpRequest (HeaderValue : Type) where
  authorization : Option HeaderValue
  body : ByteArray
  principal : Option String

structure HttpResponse where
  status : Nat
  headers : List (String × String)
  body : ByteArray

/-- The answer to a request that is nobody's. -/
def unauthorized : HttpResponse := ⟨401, [("www-authenticate", "Bearer")], ByteArray.empty⟩

section Layer

variable {HeaderValue : Type} (toStr : HeaderValue → Option String)

/-- `toStr` reads a header value, `next` is what handles the request. -/
def requireBearer (deps : Deps) (tokens : Tokens) (request : HttpRequest HeaderValue)
    (next : HttpRequest HeaderValue → Gateway HttpResponse) : Gateway HttpResponse :=
  let principal := (((request.authorization.bind toStr).bind (Text.splitOnce ' ')).filter
    fun p => Text.eqIgnoreAsciiCase p.1 "bearer").bind fun p => tokens.principalFor deps p.2
  match principal with
  | some name => next { request with principal := some name }
  | none => pure unauthorized

end Layer

/-! ### Comparing digests -/

theorem foldl_or_eq_zero (l : List (UInt8 × UInt8)) (diff : UInt8) :
    l.foldl (fun diff p => diff ||| (p.1 ^^^ p.2)) diff = 0 ↔ diff = 0 ∧ ∀ p ∈ l, p.1 = p.2 := by
  induction l generalizing diff with
  | nil => simp
  | cons p l ih =>
    rw [List.foldl_cons, ih, UInt8.or_eq_zero_iff, UInt8.xor_eq_zero_iff, and_assoc,
      List.forall_mem_cons]

theorem constantTimeEq_iff {a b : Digest} : constantTimeEq a b = true ↔ a = b := by
  have hlength : a.val.length = b.val.length := a.property.trans b.property.symm
  rw [constantTimeEq, beq_iff_eq, foldl_or_eq_zero, ← Subtype.val_inj, ← List.forall₂_eq_eq_eq,
    List.forall₂_iff_zip]
  constructor
  · rintro ⟨-, h⟩
    exact ⟨hlength, fun hp => h _ hp⟩
  · rintro ⟨-, h⟩
    exact ⟨rfl, fun p hp => h hp⟩

/-! ### Looking a token up -/

/-- Of digests that are all different, the scan finds the one presented. -/
theorem scan_eq_some {presented : Digest} {l : List (String × Digest)}
    (hnodup : (l.map Prod.snd).Nodup) {found : Option String} {p : String} :
    l.foldl (fun found e => if constantTimeEq presented e.2 then some e.1 else found) found =
        some p ↔
      (p, presented) ∈ l ∨ found = some p ∧ presented ∉ l.map Prod.snd := by
  induction l generalizing found with
  | nil => simp
  | cons e l ih =>
    obtain ⟨name, digest⟩ := e
    obtain ⟨hnew, hnodup⟩ := List.nodup_cons.mp hnodup
    rw [List.foldl_cons, ih hnodup]
    by_cases h : presented = digest
    · -- the later ones differ from this one
      subst h
      rw [if_pos (constantTimeEq_iff.mpr rfl)]
      have hlater : (p, presented) ∉ l := fun hmem =>
        hnew (List.mem_map.mpr ⟨(p, presented), hmem, rfl⟩)
      constructor
      · rintro (hmem | ⟨hname, -⟩)
        · exact absurd hmem hlater
        · cases hname
          exact Or.inl List.mem_cons_self
      · rintro (hmem | ⟨-, hnot⟩)
        · rcases List.mem_cons.mp hmem with heq | hmem
          · cases heq
            exact Or.inr ⟨rfl, hnew⟩
          · exact absurd hmem hlater
        · exact absurd List.mem_cons_self hnot
    · rw [if_neg fun heq => h (constantTimeEq_iff.mp heq), List.map_cons, List.mem_cons,
        List.mem_cons, not_or]
      constructor
      · rintro (hmem | ⟨hfound, hnot⟩)
        · exact Or.inl (Or.inr hmem)
        · exact Or.inr ⟨hfound, h, hnot⟩
      · rintro ((heq | hmem) | ⟨hfound, -, hnot⟩)
        · cases heq
          exact absurd rfl h
        · exact Or.inl hmem
        · exact Or.inr ⟨hfound, hnot⟩

/-! ### Start-up -/

/-- The token that is read for a principal. -/
def ReadToken (env : String → Option String) (e : String × PrincipalConfig)
    (r : String × String) : Prop :=
  e.1 = r.1 ∧ e.2.token.resolve env = .ok r.2

def tokenDigest (deps : Deps) (r : String × String) : Digest := deps.sha256 r.2.toUTF8

theorem lookup_eq_none {seen : List (Digest × String)} {digest : Digest} :
    seen.lookup digest = none ↔ digest ∉ seen.map Prod.fst := by
  induction seen with
  | nil => simp
  | cons e seen ih =>
    obtain ⟨d, name⟩ := e
    rw [List.lookup_cons, List.map_cons, List.mem_cons, not_or, ← ih]
    by_cases h : digest = d
    · subst h
      simp
    · have hbeq : (digest == d) = false := beq_eq_false_iff_ne.mpr h
      rw [hbeq]
      simp [h]

namespace Tokens

variable {deps : Deps} {env : String → Option String}

/-- The loop gets through exactly if there are tokens, none is empty, and their
digests are new and different. -/
theorem resolveAll_eq_ok {l : List (String × PrincipalConfig)} {seen : List (Digest × String)}
    {digests result : OrdMap String Digest} :
    resolveAll deps env l seen digests = .ok result ↔
      ∃ read, List.Forall₂ (ReadToken env) l read ∧ (∀ r ∈ read, r.2 ≠ "") ∧
        (read.map (tokenDigest deps)).Nodup ∧
        (∀ r ∈ read, tokenDigest deps r ∉ seen.map Prod.fst) ∧
        result = read.foldl (fun m r => m.insert r.1 (tokenDigest deps r)) digests := by
  induction l generalizing seen digests with
  | nil =>
    constructor
    · intro h
      cases h
      exact ⟨[], .nil, by simp, by simp, by simp, rfl⟩
    · rintro ⟨read, hread, -, -, -, rfl⟩
      cases hread
      rfl
  | cons e l ih =>
    obtain ⟨name, principal⟩ := e
    rw [resolveAll, bind_eq_ok]
    constructor
    · rintro ⟨token, htoken, h⟩
      split at h
      case isTrue => cases h
      case isFalse hempty =>
        rcases hlookup : seen.lookup (deps.sha256 token.toUTF8) with - | other
        · simp only [hlookup] at h
          obtain ⟨read, hread, hfilled, hnodup, hnew, hresult⟩ := ih.mp h
          have hfresh : tokenDigest deps (name, token) ∉ seen.map Prod.fst :=
            lookup_eq_none.mp hlookup
          refine ⟨(name, token) :: read, .cons ⟨rfl, mapError_eq_ok.mp htoken⟩ hread,
            List.forall_mem_cons.mpr ⟨hempty, hfilled⟩, ?_, ?_, hresult⟩
          · refine List.nodup_cons.mpr ⟨fun hmem => ?_, hnodup⟩
            obtain ⟨r, hr, hdigest⟩ := List.mem_map.mp hmem
            exact hnew r hr (by rw [hdigest]; exact List.mem_cons_self)
          · refine List.forall_mem_cons.mpr ⟨hfresh, fun r hr hmem => ?_⟩
            exact hnew r hr (List.mem_cons_of_mem _ hmem)
        · simp only [hlookup] at h
          cases h
    · rintro ⟨read, hread, hfilled, hnodup, hnew, rfl⟩
      cases hread with
      | @cons _ r _ read hr hread =>
        obtain ⟨name', token⟩ := r
        obtain ⟨rfl, htoken⟩ := hr
        obtain ⟨hempty, hfilled⟩ := List.forall_mem_cons.mp hfilled
        obtain ⟨hfresh, hnew⟩ := List.forall_mem_cons.mp hnew
        obtain ⟨hdigest, hnodup⟩ := List.nodup_cons.mp hnodup
        have hnone : seen.lookup (deps.sha256 token.toUTF8) = none := lookup_eq_none.mpr hfresh
        refine ⟨token, mapError_eq_ok.mpr htoken, ?_⟩
        rw [if_neg hempty]
        simp only [hnone]
        refine ih.mpr ⟨read, hread, hfilled, hnodup, fun r hr => ?_, rfl⟩
        rw [List.map_cons, List.mem_cons, not_or]
        refine ⟨fun heq => hdigest ?_, hnew r hr⟩
        have hmem := List.mem_map_of_mem (f := tokenDigest deps) hr
        rw [heq] at hmem
        exact hmem

theorem resolve_eq_ok {config : GatewayConfig} {tokens : Tokens} :
    resolve deps env config = .ok tokens ↔
      ∃ read, List.Forall₂ (ReadToken env) (OrdMap.ofList config.principals).entries read ∧
        (∀ r ∈ read, r.2 ≠ "") ∧ (read.map (tokenDigest deps)).Nodup ∧
        tokens = ⟨OrdMap.ofList (read.map fun r => (r.1, tokenDigest deps r))⟩ := by
  rw [resolve, bind_eq_ok]
  constructor
  · rintro ⟨digests, hdigests, h⟩
    cases h
    obtain ⟨read, hread, hfilled, hnodup, -, rfl⟩ := resolveAll_eq_ok.mp hdigests
    exact ⟨read, hread, hfilled, hnodup, by rw [OrdMap.ofList, List.foldl_map]⟩
  · rintro ⟨read, hread, hfilled, hnodup, rfl⟩
    refine ⟨_, resolveAll_eq_ok.mpr ⟨read, hread, hfilled, hnodup, by simp, rfl⟩, ?_⟩
    rw [OrdMap.ofList, List.foldl_map]

end Tokens

/-- The token configured for a principal. -/
def TokenOf (env : String → Option String) (config : GatewayConfig) (p token : String) : Prop :=
  ∃ principal, (OrdMap.ofList config.principals).get p = some principal ∧
    principal.token.resolve env = .ok token

section Read

variable {deps : Deps} {env : String → Option String} {config : GatewayConfig}
variable {read : List (String × String)}

theorem tokenOf_iff
    (hread : List.Forall₂ (ReadToken env) (OrdMap.ofList config.principals).entries read)
    {p token : String} : TokenOf env config p token ↔ (p, token) ∈ read := by
  constructor
  · rintro ⟨principal, hget, htoken⟩
    obtain ⟨⟨name, token'⟩, hmem, hname, hresolve⟩ :=
      exists_right hread (OrdMap.get_eq_some.mp hget)
    rw [show token' = token from Except.ok.inj (hresolve.symm.trans htoken)] at hmem
    rw [show p = name from hname]
    exact hmem
  · intro hmem
    obtain ⟨⟨name, principal⟩, hentry, hname, hresolve⟩ := exists_left hread hmem
    rw [show name = p from hname] at hentry
    exact ⟨principal, OrdMap.get_eq_some.mpr hentry, hresolve⟩

theorem names_read {l : List (String × PrincipalConfig)}
    (hread : List.Forall₂ (ReadToken env) l read) : read.map Prod.fst = l.map Prod.fst := by
  induction hread with
  | nil => rfl
  | cons hhd _ ih => rw [List.map_cons, List.map_cons, ih, hhd.1]

/-- Two principals do not have one token. -/
theorem tokenOf_unique
    (hread : List.Forall₂ (ReadToken env) (OrdMap.ofList config.principals).entries read)
    (hnodup : (read.map (tokenDigest deps)).Nodup) {p p' token : String}
    (h : TokenOf env config p token) (h' : TokenOf env config p' token) : p = p' := by
  have heq : (p, token) = (p', token) :=
    List.inj_on_of_nodup_map hnodup ((tokenOf_iff hread).mp h) ((tokenOf_iff hread).mp h') rfl
  exact congrArg Prod.fst heq

/-- The principal of a presented token, if digests tell it from the tokens
configured. -/
theorem principalFor_eq_some
    (hread : List.Forall₂ (ReadToken env) (OrdMap.ofList config.principals).entries read)
    (hnodup : (read.map (tokenDigest deps)).Nodup) {token : String}
    (hsha : Set.InjOn (fun s : String => deps.sha256 s.toUTF8)
      (insert token {t | ∃ p, TokenOf env config p t})) {p : String} :
    Tokens.principalFor deps ⟨OrdMap.ofList (read.map fun r => (r.1, tokenDigest deps r))⟩ token =
        some p ↔ TokenOf env config p token := by
  have hnames : ((read.map fun r => (r.1, tokenDigest deps r)).map Prod.fst).Nodup := by
    rw [List.map_map, show Prod.fst ∘ (fun r => (r.1, tokenDigest deps r)) = Prod.fst from rfl,
      names_read hread]
    exact OrdMap.keys_nodup _
  have hperm := OrdMap.ofList_perm hnames
  have hdigests : ((OrdMap.ofList (read.map fun r => (r.1, tokenDigest deps r))).entries.map
      Prod.snd).Nodup := by
    refine ((hperm.map Prod.snd).nodup_iff).mpr ?_
    rw [List.map_map]
    exact hnodup
  rw [Tokens.principalFor, scan_eq_some hdigests, hperm.mem_iff, tokenOf_iff hread, List.mem_map]
  constructor
  · rintro (⟨⟨name, t⟩, hmem, heq⟩ | ⟨hnone, -⟩)
    · obtain ⟨rfl, hdigest⟩ := Prod.mk.inj heq
      have ht : TokenOf env config name t := (tokenOf_iff hread).mpr hmem
      have hsame : t = token :=
        hsha (Set.mem_insert_of_mem _ ⟨name, ht⟩) (Set.mem_insert _ _) hdigest
      rw [← hsame]
      exact hmem
    · cases hnone
  · exact fun hmem => Or.inl ⟨(p, token), hmem, rfl⟩

end Read

/-! ### The header -/

section Layer

variable {HeaderValue : Type} {toStr : HeaderValue → Option String}
variable {deps : Deps} {tokens : Tokens} {request : HttpRequest HeaderValue}

/-- The header is text: the scheme `bearer` in any case, one space, and the
token. -/
def Bears (toStr : HeaderValue → Option String) (request : HttpRequest HeaderValue)
    (token : String) : Prop :=
  ∃ value scheme, request.authorization = some value ∧
    toStr value = some (scheme ++ (" " ++ token)) ∧
    Text.eqIgnoreAsciiCase scheme "bearer" = true

/-- The scheme and the token of the header. -/
def credentials (toStr : HeaderValue → Option String) (request : HttpRequest HeaderValue) :
    Option (String × String) :=
  ((request.authorization.bind toStr).bind (Text.splitOnce ' ')).filter
    fun p => Text.eqIgnoreAsciiCase p.1 "bearer"

/-- The principal the request is taken for. -/
def authenticated (deps : Deps) (toStr : HeaderValue → Option String) (tokens : Tokens)
    (request : HttpRequest HeaderValue) : Option String :=
  (credentials toStr request).bind fun p => tokens.principalFor deps p.2

theorem contains_space {scheme : String} (h : Text.eqIgnoreAsciiCase scheme "bearer" = true) :
    Text.contains ' ' scheme = false := by
  have hlower : scheme.toList.map Char.toLower = "bearer".toList.map Char.toLower :=
    of_decide_eq_true h
  rw [Text.contains_eq_false]
  intro hmem
  have hspace : (' ').toLower ∈ scheme.toList.map Char.toLower := List.mem_map_of_mem hmem
  rw [hlower] at hspace
  exact absurd hspace (by decide)

theorem bears_iff {token : String} :
    Bears toStr request token ↔ ∃ scheme, credentials toStr request = some (scheme, token) := by
  constructor
  · rintro ⟨value, scheme, hvalue, htext, hscheme⟩
    have hsplit : Text.splitOnce ' ' (scheme ++ (" " ++ token)) = some (scheme, token) :=
      Text.splitOnce_append (contains_space hscheme) token
    refine ⟨scheme, ?_⟩
    rw [credentials, hvalue, Option.bind_some, htext, Option.bind_some, hsplit]
    exact Option.filter_eq_some_iff.mpr ⟨rfl, hscheme⟩
  · rintro ⟨scheme, h⟩
    obtain ⟨hsplit, hscheme⟩ := Option.filter_eq_some_iff.mp h
    obtain ⟨text, htext, hsplit⟩ := Option.bind_eq_some_iff.mp hsplit
    obtain ⟨value, hvalue, hread⟩ := Option.bind_eq_some_iff.mp htext
    rw [(Text.splitOnce_eq_some hsplit).1] at hread
    exact ⟨value, scheme, hvalue, hread, hscheme⟩

theorem authenticated_eq_some {p : String} :
    authenticated deps toStr tokens request = some p ↔
      ∃ token, Bears toStr request token ∧ tokens.principalFor deps token = some p := by
  rw [authenticated, Option.bind_eq_some_iff]
  constructor
  · rintro ⟨⟨scheme, token⟩, hcredentials, hfound⟩
    exact ⟨token, bears_iff.mpr ⟨scheme, hcredentials⟩, hfound⟩
  · rintro ⟨token, hbears, hfound⟩
    obtain ⟨scheme, hcredentials⟩ := bears_iff.mp hbears
    exact ⟨(scheme, token), hcredentials, hfound⟩

/-- The request goes on, as the principal's. -/
def PassesAs (deps : Deps) (toStr : HeaderValue → Option String) (tokens : Tokens)
    (request : HttpRequest HeaderValue) (p : String) : Prop :=
  ∀ next, requireBearer toStr deps tokens request next = next { request with principal := some p }

/-- The request is answered without what comes next. -/
def Refused (deps : Deps) (toStr : HeaderValue → Option String) (tokens : Tokens)
    (request : HttpRequest HeaderValue) : Prop :=
  ∀ next, requireBearer toStr deps tokens request next = pure unauthorized

theorem requireBearer_some {p : String} (h : authenticated deps toStr tokens request = some p) :
    PassesAs deps toStr tokens request p := by
  intro next
  have hfound : ((credentials toStr request).bind fun p => tokens.principalFor deps p.2) = some p := h
  unfold credentials at hfound
  rw [requireBearer, hfound]

theorem requireBearer_none (h : authenticated deps toStr tokens request = none) :
    Refused deps toStr tokens request := by
  intro next
  have hfound : ((credentials toStr request).bind fun p => tokens.principalFor deps p.2) = none := h
  unfold credentials at hfound
  rw [requireBearer, hfound]

/-- What comes next, telling whom it was handed a request of. -/
def namesPrincipal (request : HttpRequest HeaderValue) : Gateway HttpResponse :=
  pure ⟨200, [("x-principal", request.principal.getD "")], request.body⟩

theorem passesAs_iff {p : String} :
    PassesAs deps toStr tokens request p ↔ authenticated deps toStr tokens request = some p := by
  constructor
  · intro h
    have hnext := h namesPrincipal
    rcases hfound : authenticated deps toStr tokens request with - | q
    · rw [requireBearer_none hfound namesPrincipal] at hnext
      have heq : 401 = 200 := congrArg HttpResponse.status (Program.ret.inj hnext)
      exact absurd heq (by decide)
    · rw [requireBearer_some hfound namesPrincipal] at hnext
      have heq := congrArg HttpResponse.headers (Program.ret.inj hnext)
      have hname : q = p := congrArg Prod.snd (List.cons.inj heq).1
      rw [hname]
  · exact requireBearer_some

theorem refused_iff :
    Refused deps toStr tokens request ↔ authenticated deps toStr tokens request = none := by
  constructor
  · intro h
    rcases hfound : authenticated deps toStr tokens request with - | q
    · rfl
    · have hnext := h namesPrincipal
      rw [requireBearer_some hfound namesPrincipal] at hnext
      have heq : 200 = 401 := congrArg HttpResponse.status (Program.ret.inj hnext)
      exact absurd heq (by decide)
  · exact requireBearer_none

/-- How a request with a header is taken, for the tokens configured. -/
structure Authenticates (env : String → Option String) (config : GatewayConfig) (deps : Deps)
    (toStr : HeaderValue → Option String) (tokens : Tokens)
    (request : HttpRequest HeaderValue) : Prop where
  passes_iff : ∀ p, PassesAs deps toStr tokens request p ↔
    ∃ token, Bears toStr request token ∧ TokenOf env config p token
  one : ∀ p p', (∃ token, Bears toStr request token ∧ TokenOf env config p token) →
    (∃ token, Bears toStr request token ∧ TokenOf env config p' token) → p = p'
  refused_iff : Refused deps toStr tokens request ↔
    ¬ ∃ p token, Bears toStr request token ∧ TokenOf env config p token
  missing : request.authorization = none → Refused deps toStr tokens request
  unreadable : ∀ value, request.authorization = some value → toStr value = none →
    Refused deps toStr tokens request
  scheme : ∀ value text, request.authorization = some value → toStr value = some text →
    (∀ scheme token, text = scheme ++ (" " ++ token) →
      Text.eqIgnoreAsciiCase scheme "bearer" = false) → Refused deps toStr tokens request
  empty : Bears toStr request "" → Refused deps toStr tokens request
  unconfigured : ∀ token, Bears toStr request token → (∀ p, ¬ TokenOf env config p token) →
    Refused deps toStr tokens request

theorem Bears.unique {token token' : String} (h : Bears toStr request token)
    (h' : Bears toStr request token') : token = token' := by
  obtain ⟨scheme, hcredentials⟩ := bears_iff.mp h
  obtain ⟨scheme', hcredentials'⟩ := bears_iff.mp h'
  rw [hcredentials] at hcredentials'
  exact congrArg Prod.snd (Option.some.inj hcredentials')

variable {env : String → Option String} {config : GatewayConfig}

theorem authenticates (hresolve : Tokens.resolve deps env config = .ok tokens)
    (hsha : ∀ token, Bears toStr request token →
      Set.InjOn (fun s : String => deps.sha256 s.toUTF8)
        (insert token {t | ∃ p, TokenOf env config p t})) :
    Authenticates env config deps toStr tokens request := by
  obtain ⟨read, hread, hfilled, hnodup, htokens⟩ := Tokens.resolve_eq_ok.mp hresolve
  have hpasses : ∀ p, authenticated deps toStr tokens request = some p ↔
      ∃ token, Bears toStr request token ∧ TokenOf env config p token := by
    intro p
    rw [authenticated_eq_some]
    refine exists_congr fun token => and_congr_right fun hbears => ?_
    rw [htokens]
    exact principalFor_eq_some hread hnodup (hsha token hbears)
  have hrefused : Refused deps toStr tokens request ↔
      ¬ ∃ p token, Bears toStr request token ∧ TokenOf env config p token := by
    rw [refused_iff, Option.eq_none_iff_forall_ne_some, not_exists]
    exact forall_congr' fun p => not_congr (hpasses p)
  refine
    { passes_iff := fun p => passesAs_iff.trans (hpasses p)
      one := ?_
      refused_iff := hrefused
      missing := ?_
      unreadable := ?_
      scheme := ?_
      empty := ?_
      unconfigured := ?_ }
  · rintro p p' ⟨token, hbears, htoken⟩ ⟨token', hbears', htoken'⟩
    rw [hbears'.unique hbears] at htoken'
    exact tokenOf_unique hread hnodup htoken htoken'
  · intro hnone
    refine hrefused.mpr ?_
    rintro ⟨p, token, ⟨value, -, hvalue, -⟩, -⟩
    rw [hnone] at hvalue
    cases hvalue
  · intro value hvalue hnone
    refine hrefused.mpr ?_
    rintro ⟨p, token, ⟨value', scheme, hvalue', htext, -⟩, -⟩
    rw [hvalue] at hvalue'
    cases hvalue'
    rw [hnone] at htext
    cases htext
  · intro value text hvalue htext hother
    refine hrefused.mpr ?_
    rintro ⟨p, token, ⟨value', scheme, hvalue', htext', hscheme⟩, -⟩
    rw [hvalue] at hvalue'
    cases hvalue'
    rw [htext] at htext'
    rw [hother scheme token (Option.some.inj htext')] at hscheme
    cases hscheme
  · intro hempty
    refine hrefused.mpr ?_
    rintro ⟨p, token, hbears, htoken⟩
    rw [hbears.unique hempty] at htoken
    exact hfilled _ ((tokenOf_iff hread).mp htoken) rfl
  · intro token hbears hnone
    refine hrefused.mpr ?_
    rintro ⟨p, token', hbears', htoken⟩
    rw [hbears'.unique hbears] at htoken
    exact hnone p htoken

end Layer

/-- Start-up fails on an empty token and on a shared one. -/
theorem resolve_refuses (deps : Deps) {env : String → Option String} {config : GatewayConfig}
    (h : (∃ p, TokenOf env config p "") ∨
      ∃ p p' token, p ≠ p' ∧ TokenOf env config p token ∧ TokenOf env config p' token) :
    ∃ e, Tokens.resolve deps env config = .error e := by
  rcases hresolve : Tokens.resolve deps env config with e | tokens
  · exact ⟨e, rfl⟩
  · obtain ⟨read, hread, hfilled, hnodup, -⟩ := Tokens.resolve_eq_ok.mp hresolve
    rcases h with ⟨p, hempty⟩ | ⟨p, p', token, hne, htoken, htoken'⟩
    · exact absurd rfl (hfilled _ ((tokenOf_iff hread).mp hempty))
    · exact absurd (tokenOf_unique hread hnodup htoken htoken') hne

/-- Bearer authentication is exact, for tokens that start-up accepts and a
digest that tells the presented one from them; start-up accepts no empty token
and no shared one. -/
theorem bearer_exact {deps : Deps} {env : String → Option String} {config : GatewayConfig}
    {tokens : Tokens} (hresolve : Tokens.resolve deps env config = .ok tokens)
    {HeaderValue : Type} (toStr : HeaderValue → Option String) (request : HttpRequest HeaderValue)
    (hsha : ∀ token, Bears toStr request token →
      Set.InjOn (fun s : String => deps.sha256 s.toUTF8)
        (insert token {t | ∃ p, TokenOf env config p t})) :
    Authenticates env config deps toStr tokens request ∧
    ∀ (env : String → Option String) (config : GatewayConfig),
      ((∃ p, TokenOf env config p "") ∨
        ∃ p p' token, p ≠ p' ∧ TokenOf env config p token ∧ TokenOf env config p' token) →
      ∃ e, Tokens.resolve deps env config = .error e :=
  ⟨authenticates hresolve hsha, fun _ _ h => resolve_refuses deps h⟩

section Examples

namespace Reference

/-- The text of a header value of visible characters. -/
def headerText (value : List UInt8) : Option String :=
  if value.all fun b => (32 ≤ b && b < 127) || b = 9 then
    some (String.ofList (value.map fun b => Char.ofNat b.toNat))
  else none

/-- Two principals; the token of one has a space in it. -/
def tokenConfig : GatewayConfig :=
  { config with principals := [("agent", ⟨⟨"env:AGENT", "AGENT", by decide⟩⟩),
      ("ops", ⟨⟨"env:OPS", "OPS", by decide⟩⟩)] }

def tokenEnv (name : String) : Option String :=
  if name = "AGENT" then some "a b" else if name = "OPS" then some "t" else none

/-- `bEaReR a b`. -/
def agentRequest : HttpRequest (List UInt8) :=
  ⟨some [98, 69, 97, 82, 101, 82, 32, 97, 32, 98], ByteArray.empty, none⟩

def tokenDigests : Tokens :=
  ⟨OrdMap.ofList [("agent", hash "a b".toUTF8), ("ops", hash "t".toUTF8)]⟩

theorem tokens_apart : hash "a b".toUTF8 ≠ hash "t".toUTF8 := by decide

theorem tokens_resolve : Tokens.resolve reference tokenEnv tokenConfig = .ok tokenDigests := by
  refine Tokens.resolve_eq_ok.mpr ⟨[("agent", "a b"), ("ops", "t")], ?_, by decide, ?_, rfl⟩
  · exact .cons ⟨rfl, rfl⟩ (.cons ⟨rfl, rfl⟩ .nil)
  · refine List.nodup_cons.mpr ⟨fun hmem => ?_, List.nodup_singleton _⟩
    exact tokens_apart (List.mem_singleton.mp hmem)

theorem agent_bears {token : String} : Bears headerText agentRequest token ↔ token = "a b" := by
  have hcredentials : credentials headerText agentRequest = some ("bEaReR", "a b") := by decide
  rw [bears_iff, hcredentials]
  constructor
  · rintro ⟨scheme, h⟩
    exact (congrArg Prod.snd (Option.some.inj h)).symm
  · rintro rfl
    exact ⟨"bEaReR", rfl⟩

end Reference

open Reference in
theorem bearer_exact_reference :
    PassesAs reference headerText tokenDigests agentRequest "agent" := by
  have hread : List.Forall₂ (ReadToken tokenEnv) (OrdMap.ofList tokenConfig.principals).entries
      [("agent", "a b"), ("ops", "t")] := .cons ⟨rfl, rfl⟩ (.cons ⟨rfl, rfl⟩ .nil)
  have hsha : ∀ token, Bears headerText agentRequest token →
      Set.InjOn (fun s : String => reference.sha256 s.toUTF8)
        (insert token {t | ∃ p, TokenOf tokenEnv tokenConfig p t}) := by
    intro token hbears
    have hmem : ∀ t ∈ insert token {t | ∃ p, TokenOf tokenEnv tokenConfig p t},
        t = "a b" ∨ t = "t" := by
      rintro t (rfl | ⟨p, ht⟩)
      · exact Or.inl (agent_bears.mp hbears)
      · have hpair := (tokenOf_iff hread).mp ht
        simp only [List.mem_cons, Prod.mk.injEq, List.not_mem_nil, or_false] at hpair
        exact hpair.imp And.right And.right
    intro s hs t ht heq
    rcases hmem s hs with rfl | rfl <;> rcases hmem t ht with rfl | rfl
    · rfl
    · exact absurd heq tokens_apart
    · exact absurd heq.symm tokens_apart
    · rfl
  have hexact := (bearer_exact tokens_resolve headerText agentRequest hsha).1
  refine (hexact.passes_iff "agent").mpr ⟨"a b", agent_bears.mpr rfl, ?_⟩
  exact (tokenOf_iff hread).mpr List.mem_cons_self

end Examples

end ProvenoGateway
