/-
# `Cognos.AgentIpc.Interceptor` — the session token and the name beside it

`interceptor.rs`.  A request's metadata holds the session token under one key and the
agent's id under another.  `intercept` looks the token up and asks when it expires; the id
is read by `agent_id_from_request`, and nothing compares it with the agent the token was
issued to.  On an expired token `intercept` removes the entry while it still holds a
reference into the map, and does not return.

    intercept_ok_iff   what passes: a live token
    binds_iff          when the id read is the one the token was issued to
    binds_all_iff      and when that is so of all requests
-/
import Mathlib
import Cognos.Lib.Text

namespace AgentIpc

/-- gRPC metadata: keys and values in the order they were added. -/
abbrev Metadata := List (String × List UInt8)

namespace Metadata

/-- A byte `to_str` reads: a tab, or a printing ASCII character. -/
def isVisibleAscii (b : UInt8) : Bool := (decide (32 ≤ b) && decide (b < 127)) || b == 9

/-- `to_str`, character by character. -/
def toStr (value : List UInt8) : Option String :=
  if value.all isVisibleAscii then
    some (String.ofList (value.map fun b => Char.ofNat b.toNat))
  else none

/-- `get(key)`, the first value under the key, and `to_str` of it. -/
def text (md : Metadata) (key : String) : Option String :=
  (md.lookup key).bind toStr

end Metadata

def agentIdKey : String := "x-cognos-agent-id"

def sessionTokenKey : String := "x-cognos-session-token"

/-- Instants are in nanoseconds. -/
structure TokenEntry where
  agentId : String
  expiresAt : Nat

structure AuthInterceptor where
  validTokens : AList fun _ : String => TokenEntry

namespace AuthInterceptor

def registerToken (ai : AuthInterceptor) (token agentId : String) (now ttl : Nat) :
    AuthInterceptor :=
  { validTokens := ai.validTokens.insert token ⟨agentId, now + ttl⟩ }

def revokeToken (ai : AuthInterceptor) (token : String) : AuthInterceptor :=
  { validTokens := ai.validTokens.erase token }

/-- `intercept` at the instant `now`: the request as it came, or a status.  `none` is the call
that does not return: `remove` waits for the reference the call itself holds. -/
def intercept (ai : AuthInterceptor) (req : Metadata) (now : Nat) :
    Option (Except String Metadata) :=
  match req.text sessionTokenKey with
  | none => some (.error "missing session token")
  | some token =>
      match ai.validTokens.lookup token with
      | none => some (.error "invalid session token")
      | some entry => if entry.expiresAt < now then none else some (.ok req)

def agentIdFromRequest (req : Metadata) : Option String := req.text agentIdKey

/-- The request presents a token that is registered and has not expired, and this is its
entry. -/
def Presents (ai : AuthInterceptor) (req : Metadata) (now : Nat) (entry : TokenEntry) : Prop :=
  ∃ token, req.text sessionTokenKey = some token ∧ ai.validTokens.lookup token = some entry ∧
    now ≤ entry.expiresAt

/-- What passes passes unchanged, and with a live token. -/
theorem intercept_ok_iff {ai : AuthInterceptor} {req out : Metadata} {now : Nat} :
    ai.intercept req now = some (.ok out) ↔ out = req ∧ ∃ entry, ai.Presents req now entry := by
  unfold intercept Presents
  cases req.text sessionTokenKey with
  | none => simp
  | some token =>
      cases hentry : ai.validTokens.lookup token with
      | none => simp [hentry]
      | some entry =>
          by_cases hnow : entry.expiresAt < now
          · simp [hentry, hnow]
          · simp [hentry, hnow, not_lt.mp hnow, eq_comm]

theorem Presents.unique {ai : AuthInterceptor} {req : Metadata} {now : Nat}
    {entry entry' : TokenEntry} (h : ai.Presents req now entry)
    (h' : ai.Presents req now entry') : entry = entry' := by
  obtain ⟨token, htoken, hentry, -⟩ := h
  obtain ⟨token', htoken', hentry', -⟩ := h'
  obtain rfl := Option.some.inj (htoken.symm.trans htoken')
  exact Option.some.inj (hentry.symm.trans hentry')

/-- If the request passes, the id later code reads off it is that of the agent the presented
token was issued to. -/
def Binds (ai : AuthInterceptor) (req : Metadata) (now : Nat) : Prop :=
  ∀ out, ai.intercept req now = some (.ok out) → ∀ id, agentIdFromRequest out = some id →
    ∃ token entry, req.text sessionTokenKey = some token ∧
      ai.validTokens.lookup token = some entry ∧ entry.agentId = id

/-- There is nothing to bind: no live token, no id that can be read, or an id that is the token's
agent already. -/
theorem named_of_binds {ai : AuthInterceptor} {req : Metadata} {now : Nat}
    (hbinds : ai.Binds req now) {token : String} {entry : TokenEntry}
    (htoken : req.text sessionTokenKey = some token)
    (hentry : ai.validTokens.lookup token = some entry) :
    entry.expiresAt < now ∨
      req.text agentIdKey = none ∨ req.text agentIdKey = some entry.agentId := by
  refine or_iff_not_imp_left.mpr fun hlive => ?_
  have hpass : ai.intercept req now = some (.ok req) :=
    intercept_ok_iff.mpr ⟨rfl, entry, token, htoken, hentry, not_lt.mp hlive⟩
  cases hid : req.text agentIdKey with
  | none => exact Or.inl rfl
  | some id =>
      obtain ⟨token', entry', htoken', hentry', hagent⟩ := hbinds req hpass id hid
      obtain rfl := Option.some.inj (htoken.symm.trans htoken')
      obtain rfl := Option.some.inj (hentry.symm.trans hentry')
      exact Or.inr (congrArg some hagent.symm)

theorem binds_of_named {ai : AuthInterceptor} {req : Metadata} {now : Nat}
    (hnames : ∀ token entry, req.text sessionTokenKey = some token →
      ai.validTokens.lookup token = some entry → entry.expiresAt < now ∨
        req.text agentIdKey = none ∨ req.text agentIdKey = some entry.agentId) :
    ai.Binds req now := by
  intro out hpass id hid
  obtain ⟨rfl, entry, token, htoken, hentry, hlive⟩ := intercept_ok_iff.mp hpass
  refine ⟨token, entry, htoken, hentry, ?_⟩
  rcases hnames token entry htoken hentry with hexpired | hnone | hsome
  · exact absurd hexpired (not_lt.mpr hlive)
  · rw [agentIdFromRequest, hnone] at hid
    cases hid
  · rw [agentIdFromRequest, hsome] at hid
    exact Option.some.inj hid

/-- The interceptor binds the id to the token exactly where there is nothing to bind: no live
token, no id that can be read, or an id that is the token's agent already. -/
theorem binds_iff (ai : AuthInterceptor) (req : Metadata) (now : Nat) :
    ai.Binds req now ↔
      (∀ token entry, req.text sessionTokenKey = some token →
        ai.validTokens.lookup token = some entry → entry.expiresAt < now ∨
          req.text agentIdKey = none ∨ req.text agentIdKey = some entry.agentId) := by
  constructor
  · intro hbinds token entry htoken hentry
    exact named_of_binds hbinds htoken hentry
  · exact binds_of_named

/-! ## All requests -/

/-- A text a metadata value can carry: printing ASCII and tabs. -/
def Sendable (text : String) : Prop :=
  ∀ c ∈ text.toList, (32 ≤ c.toNat ∧ c.toNat < 127) ∨ c.toNat = 9

/-- The bytes of such a text. -/
def sent (text : String) : List UInt8 := text.toList.map fun c => UInt8.ofNat c.toNat

theorem toStr_sent {text : String} (h : Sendable text) :
    Metadata.toStr (sent text) = some text := by
  have hcode : ∀ c ∈ text.toList, (UInt8.ofNat c.toNat).toNat = c.toNat := by
    intro c hc
    rw [UInt8.toNat_ofNat']
    rcases h c hc with hprinting | htab
    · omega
    · omega
  have hvisible : (sent text).all Metadata.isVisibleAscii = true := by
    rw [sent, List.all_map, List.all_eq_true]
    intro c hc
    have hbyte := hcode c hc
    rcases h c hc with ⟨hlow, hhigh⟩ | htab
    · simp [Metadata.isVisibleAscii, UInt8.le_iff_toNat_le, UInt8.lt_iff_toNat_lt, hbyte, hlow,
        hhigh]
    · simp [Metadata.isVisibleAscii, htab]
  have hchars : (sent text).map (fun b => Char.ofNat b.toNat) = text.toList := by
    rw [sent, List.map_map]
    refine (List.map_congr_left fun c hc => ?_).trans (List.map_id _)
    show Char.ofNat (UInt8.ofNat c.toNat).toNat = c
    rw [hcode c hc, Char.ofNat_toNat]
  rw [Metadata.toStr, if_pos hvisible, hchars, String.ofList_toList]

theorem sendable_of_text {md : Metadata} {key text : String} (h : md.text key = some text) :
    Sendable text := by
  obtain ⟨value, -, hvalue⟩ := Option.bind_eq_some_iff.mp h
  unfold Metadata.toStr at hvalue
  split at hvalue
  next hall =>
    obtain rfl := Option.some.inj hvalue
    intro c hc
    rw [String.toList_ofList] at hc
    obtain ⟨b, hb, rfl⟩ := List.mem_map.mp hc
    have hbyte := List.all_eq_true.mp hall b hb
    have hlt := b.toNat_lt
    have hvalid : b.toNat.isValidChar := Or.inl (by omega)
    rw [Char.toNat_ofNat, if_pos hvalid]
    simp only [Metadata.isVisibleAscii, Bool.or_eq_true, Bool.and_eq_true, decide_eq_true_eq,
      beq_iff_eq, UInt8.le_iff_toNat_le, UInt8.lt_iff_toNat_lt] at hbyte
    rcases hbyte with hprinting | htab
    · exact Or.inl hprinting
    · exact Or.inr (congrArg UInt8.toNat htab)
  next => cases hvalue

/-- A request that presents a token and names an agent. -/
def naming (token agentId : String) : Metadata :=
  [(sessionTokenKey, sent token), (agentIdKey, sent agentId)]

theorem naming_token {token : String} (h : Sendable token) (agentId : String) :
    (naming token agentId).text sessionTokenKey = some token := by
  show (some (sent token)).bind Metadata.toStr = some token
  exact toStr_sent h

theorem naming_agentId {agentId : String} (h : Sendable agentId) (token : String) :
    (naming token agentId).text agentIdKey = some agentId := by
  show (some (sent agentId)).bind Metadata.toStr = some agentId
  exact toStr_sent h

theorem sendable_singleton {c : Char} (h : 32 ≤ c.toNat ∧ c.toNat < 127) :
    Sendable (String.singleton c) := by
  intro d hd
  rw [String.toList_singleton, List.mem_singleton] at hd
  rw [hd]
  exact Or.inl h

/-- Somebody else can always be named. -/
theorem exists_sendable_ne (agentId : String) : ∃ other, Sendable other ∧ other ≠ agentId := by
  by_cases h : agentId = String.singleton 'a'
  · refine ⟨String.singleton 'b', sendable_singleton (by decide), ?_⟩
    rw [h]
    decide
  · exact ⟨String.singleton 'a', sendable_singleton (by decide), Ne.symm h⟩

/-- All requests are bound only where no token that can be sent is live: a live token passes
under any name. -/
theorem binds_all_iff (ai : AuthInterceptor) (now : Nat) :
    (∀ req, ai.Binds req now) ↔
      ∀ token entry, Sendable token → ai.validTokens.lookup token = some entry →
        entry.expiresAt < now := by
  constructor
  · intro hall token entry hsend hentry
    by_contra hlive
    obtain ⟨other, hother, hne⟩ := exists_sendable_ne entry.agentId
    rcases named_of_binds (hall _) (naming_token hsend other) hentry with
      hexpired | hnone | hsome
    · exact hlive hexpired
    · rw [naming_agentId hother] at hnone
      cases hnone
    · rw [naming_agentId hother] at hsome
      exact hne (Option.some.inj hsome)
  · intro hdead req
    refine binds_of_named fun token entry htoken hentry => Or.inl ?_
    exact hdead token entry (sendable_of_text htoken) hentry

/-! ## Another agent's name -/

/-- The planner's token, and the request that presents it in the name of the memory agent. -/
def plannerIssued : AuthInterceptor :=
  registerToken ⟨∅⟩ "session-1" "planner" 0 3600000000000

theorem not_binds_naming : ¬ plannerIssued.Binds (naming "session-1" "memory") 1000000000 := by
  intro hbinds
  have htoken : (naming "session-1" "memory").text sessionTokenKey = some "session-1" := by
    decide +kernel
  have hid : agentIdFromRequest (naming "session-1" "memory") = some "memory" := by
    decide +kernel
  have hpass : plannerIssued.intercept (naming "session-1" "memory") 1000000000 =
      some (.ok (naming "session-1" "memory")) := by
    refine intercept_ok_iff.mpr ⟨rfl, ⟨"planner", 3600000000000⟩, "session-1", htoken, rfl, ?_⟩
    decide
  obtain ⟨token, entry, htoken', hentry, hagent⟩ := hbinds _ hpass "memory" hid
  obtain rfl := Option.some.inj (htoken.symm.trans htoken')
  have hplanner : plannerIssued.validTokens.lookup "session-1" =
      some ⟨"planner", 3600000000000⟩ := rfl
  obtain rfl := Option.some.inj (hentry.symm.trans hplanner)
  exact absurd hagent (by decide)

end AuthInterceptor

end AgentIpc
