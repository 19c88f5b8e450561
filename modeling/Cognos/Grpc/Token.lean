/-
# `Cognos.Grpc.Token` — session tokens

`create_token` and `verify_token` of the gRPC layer's `auth.rs`.  A token is three texts in
base64 with dots between them: the agent, the expiry in decimal, and the HMAC of
`agent|expiry`.

What is proved:

    verify_createToken     a token is verified as what it was made of, until it expires
    message_injective      the bytes that are signed give agent and expiry back
    verifyToken_ok_iff     what a verified token is
-/
import Mathlib
import Cognos.Lib.Base64
import Cognos.Lib.Decimal
import Cognos.Lib.Separated
import Cognos.Lib.Sha256

namespace Grpc

/-- HMAC with SHA-256: the code of a message under a key. -/
structure HmacSha256 where
  mac : (key message : List UInt8) → List UInt8

inductive AuthError
  | invalidToken
  | expired
  | unknownAgent (agentId : String)
  | signatureMismatch
  deriving DecidableEq

structure AuthContext where
  agentId : String
  capabilities : Finset String
  sessionToken : String
  expiry : UInt64

namespace Token

/-- `b"|"`. -/
def bar : UInt8 := 124

/-- The bytes that are signed: `agent_id|expiry`. -/
def message (agentId : String) (expiry : String) : List UInt8 :=
  Text.bytes agentId ++ bar :: Text.bytes expiry

/-- Three texts with dots between them. -/
def dotted (agent expiry signature : List UInt8) : String :=
  String.ofList (Base64.encode agent ++ '.' :: (Base64.encode expiry ++ '.' ::
    Base64.encode signature))

/-- What the three parts of a token say. -/
structure Parts where
  agentId : String
  expiry : String
  signature : List UInt8
  deriving DecidableEq

/-- `token.split('.')`, and the three parts decoded. -/
def readParts (decode : List Char → Option (List UInt8)) (token : String) : Option Parts :=
  match token.toList.splitOn '.' with
  | [agent, expiry, signature] => do
      let agentId ← (decode agent).bind Text.fromUtf8?
      let expiryStr ← (decode expiry).bind Text.fromUtf8?
      let supplied ← decode signature
      some ⟨agentId, expiryStr, supplied⟩
  | _ => none

variable (M : HmacSha256)

def createToken (agentId : String) (expiry : UInt64) (secret : List UInt8) : String :=
  let expiryStr := toString expiry.toNat
  dotted (Text.bytes agentId) (Text.bytes expiryStr) (M.mac secret (message agentId expiryStr))

/-- `verify_token` at the time `now`, in seconds since 1970.  For another agent's token a code
is computed and thrown away. -/
def verifyToken (token expectedAgent : String) (secret : List UInt8) (now : UInt64) :
    Except AuthError AuthContext :=
  match readParts Base64.decode token with
  | none => .error .invalidToken
  | some p =>
      if p.agentId ≠ expectedAgent then .error (.unknownAgent p.agentId)
      else
        match Decimal.parseU64 p.expiry with
        | none => .error .invalidToken
        | some expiry =>
            if expiry ≤ now then .error .expired
            else if M.mac secret (message p.agentId (toString expiry.toNat)) = p.signature then
              .ok ⟨p.agentId, ∅, token, expiry⟩
            else .error .signatureMismatch

/-! ## Reading what was written -/

theorem splitOn_dotted (agent expiry signature : List UInt8) :
    (dotted agent expiry signature).toList.splitOn '.' =
      [Base64.encode agent, Base64.encode expiry, Base64.encode signature] := by
  have ha := Base64.dot_notMem_encode agent
  have he := Base64.dot_notMem_encode expiry
  have hs := Base64.dot_notMem_encode signature
  rw [dotted, String.toList_ofList, List.splitOn_append_cons_self, List.splitOn_append_cons_self,
    List.splitOn_eq_singleton ha, List.splitOn_eq_singleton he, List.splitOn_eq_singleton hs]
  rfl

theorem readParts_dotted (agentId expiryStr : String) (signature : List UInt8) :
    readParts Base64.decode (dotted (Text.bytes agentId) (Text.bytes expiryStr) signature) =
      some ⟨agentId, expiryStr, signature⟩ := by
  rw [readParts, splitOn_dotted]
  simp only [Base64.decode_encode, Option.bind_some, Text.fromUtf8?_bytes, Option.bind_eq_bind]

/-- What a verified token is. -/
theorem verifyToken_ok_iff {token expectedAgent : String} {secret : List UInt8} {now : UInt64}
    {ctx : AuthContext} :
    verifyToken M token expectedAgent secret now = .ok ctx ↔
      ∃ p expiry, readParts Base64.decode token = some p ∧ p.agentId = expectedAgent ∧
        Decimal.parseU64 p.expiry = some expiry ∧ now < expiry ∧
        p.signature = M.mac secret (message expectedAgent (toString expiry.toNat)) ∧
        ctx = ⟨expectedAgent, ∅, token, expiry⟩ := by
  constructor
  · intro h
    simp only [verifyToken] at h
    split at h
    · cases h
    · next p hparts =>
        split at h
        · cases h
        · next hagent =>
            have hexpected : p.agentId = expectedAgent := not_not.mp hagent
            split at h
            · cases h
            · next expiry hexpiry =>
                split at h
                · cases h
                · next hlive =>
                    split at h
                    · next hmac =>
                        rw [hexpected] at h hmac
                        cases h
                        exact ⟨p, expiry, hparts, hexpected, hexpiry, UInt64.not_le.mp hlive,
                          hmac.symm, rfl⟩
                    · cases h
  · rintro ⟨p, expiry, hparts, rfl, hexpiry, hlive, hsignature, rfl⟩
    simp only [verifyToken, hparts, hexpiry, UInt64.not_le.mpr hlive, hsignature, ne_eq,
      not_true_eq_false, if_false, if_true]

/-- Round trip: a token is verified as what it was made of, until it expires. -/
theorem verify_createToken {agentId : String} {expiry now : UInt64} {secret : List UInt8}
    (h : now < expiry) :
    verifyToken M (createToken M agentId expiry secret) agentId secret now =
      .ok ⟨agentId, ∅, createToken M agentId expiry secret, expiry⟩ :=
  (verifyToken_ok_iff M).mpr ⟨_, expiry, readParts_dotted _ _ _, rfl,
    Decimal.parseU64_toString expiry, h, rfl, rfl⟩

/-! ## Authenticity -/

theorem bar_notMem_toString (n : UInt64) : bar ∉ Text.bytes (toString n.toNat) := by
  have hbar : '|'.toNat = bar.toNat := rfl
  rw [Separated.mem_bytes_iff (by decide) hbar, Nat.toString_eq_ofList_toDigits,
    String.toList_ofList]
  intro hmem
  have hdigit := Decimal.mem_of_isDigits (Decimal.isDigits_toDigits n.toNat) hmem
  cases hdigit

/-- The bytes that are signed give the pair back, whatever the agent's name: its expiry stands
behind the last bar. -/
theorem message_injective {a b : String} {m n : UInt64}
    (h : message a (toString m.toNat) = message b (toString n.toNat)) : a = b ∧ m = n := by
  obtain ⟨hagent, hexpiry⟩ :=
    Separated.append_cons_last (bar_notMem_toString m) (bar_notMem_toString n) h
  have hm := Decimal.parseU64_toString m
  rw [Text.bytes_injective hexpiry, Decimal.parseU64_toString] at hm
  exact ⟨Text.bytes_injective hagent, (Option.some.inj hm).symm⟩

/-- An unforgeable code: where the one that comes with a token is that of the message which
`verify_token` makes of the token's agent and expiry, this message was signed for a minted
pair. -/
def Unforged (secret : List UInt8) (minted : Set (String × UInt64)) (token : String) : Prop :=
  ∀ p expiry, readParts Base64.decode token = some p → Decimal.parseU64 p.expiry = some expiry →
    p.signature = M.mac secret (message p.agentId (toString expiry.toNat)) →
      ∃ pair ∈ minted,
        message p.agentId (toString expiry.toNat) = message pair.1 (toString pair.2.toNat)

/-- A token that verifies and was not forged was minted, for this agent and not yet expired. -/
theorem minted_of_verified {secret : List UInt8} {minted : Set (String × UInt64)}
    {token expectedAgent : String} {now : UInt64} {ctx : AuthContext}
    (hforged : Unforged M secret minted token)
    (h : verifyToken M token expectedAgent secret now = .ok ctx) :
    (ctx.agentId, ctx.expiry) ∈ minted ∧ ctx.agentId = expectedAgent ∧ now < ctx.expiry := by
  obtain ⟨p, expiry, hparts, rfl, hexpiry, hlive, hsignature, rfl⟩ := (verifyToken_ok_iff M).mp h
  obtain ⟨⟨agentId, expiry'⟩, hmem, hmessage⟩ := hforged p expiry hparts hexpiry hsignature
  obtain ⟨rfl, rfl⟩ := message_injective hmessage
  exact ⟨hmem, rfl, hlive⟩

/-- Tokens are authentic: what is minted verifies until it expires and as what it is; what
verifies was minted, where the code cannot be forged; and the code is of one pair only. -/
theorem token_authentic (secret : List UInt8) :
    (∀ agentId expiry now, now < expiry →
      verifyToken M (createToken M agentId expiry secret) agentId secret now =
        .ok ⟨agentId, ∅, createToken M agentId expiry secret, expiry⟩) ∧
    (∀ minted token expectedAgent now ctx, Unforged M secret minted token →
      verifyToken M token expectedAgent secret now = .ok ctx →
        (ctx.agentId, ctx.expiry) ∈ minted ∧ ctx.agentId = expectedAgent ∧ now < ctx.expiry ∧
          ∃ p, readParts Base64.decode token = some p ∧
            p.signature = M.mac secret (message ctx.agentId (toString ctx.expiry.toNat))) ∧
    ∀ (a b : String) (m n : UInt64),
      message a (toString m.toNat) = message b (toString n.toNat) → a = b ∧ m = n := by
  refine ⟨fun agentId expiry now h => verify_createToken M h, ?_, fun a b m n =>
    message_injective⟩
  intro minted token expectedAgent now ctx hforged h
  obtain ⟨hmem, hagent, hlive⟩ := minted_of_verified M hforged h
  refine ⟨hmem, hagent, hlive, ?_⟩
  obtain ⟨p, expiry, hparts, -, -, -, hsignature, rfl⟩ := (verifyToken_ok_iff M).mp h
  exact ⟨p, hparts, hsignature⟩

/-! The committed token of the cross-language tests. -/

namespace Golden

def agent : String := "agent.coordinator"

def expiry : UInt64 := 4102444800

def secret : List UInt8 := Text.bytes "cognos-cross-auth-test-secret"

/-- The HMAC of `agent.coordinator|4102444800` under the secret. -/
def signature : List UInt8 :=
  Sha256.bytes32 0x0181f4a9b69506e6b7da42041b922b622a245a4f019a9854f31dfa1a2c34dd13

def hmac : HmacSha256 where
  mac key m := if key = secret ∧ m = message agent (toString expiry.toNat) then signature else []

theorem mac_eq : hmac.mac secret (message agent (toString expiry.toNat)) = signature := by
  simp only [hmac]
  rw [if_pos ⟨trivial, trivial⟩]

theorem signature_ne : signature ≠ [] := by decide

theorem eq_of_mac {m : List UInt8} (h : signature = hmac.mac secret m) :
    m = message agent (toString expiry.toNat) := by
  by_contra hm
  simp only [hmac] at h
  rw [if_neg fun hc => hm hc.2] at h
  exact signature_ne h

end Golden

/-- The golden token verifies, and was minted. -/
theorem token_authentic_golden :
    (∃ ctx, verifyToken Golden.hmac (createToken Golden.hmac Golden.agent Golden.expiry
        Golden.secret) Golden.agent Golden.secret 1767225600 = .ok ctx ∧
      (ctx.agentId, ctx.expiry) ∈ ({(Golden.agent, Golden.expiry)} : Set (String × UInt64))) := by
  obtain ⟨hround, hminted, -⟩ := token_authentic Golden.hmac Golden.secret
  have hok := hround Golden.agent Golden.expiry 1767225600 (by decide)
  refine ⟨_, hok, (hminted _ _ _ _ _ ?_ hok).1⟩
  intro p expiry hp _ hm
  rw [createToken, readParts_dotted] at hp
  cases hp
  rw [Golden.mac_eq] at hm
  exact ⟨_, Set.mem_singleton _, Golden.eq_of_mac hm⟩

end Token

end Grpc
