/-
# `Cognos.Grpc.PythonToken` — the token verifier of the agents

`verify_token` of the agents' `auth.py`, the port of the one in `Cognos.Grpc.Token`: the same
checks in the same order, each made with what Python has for it.  The two part ways in what
they take for base64 and for a number:

    a part of the token     strict, unpadded, URL-safe     lax (`Base64.laxDecode`)
    the expiry              `parse::<u64>`                 `int`, up to 4300 digits

A token that, read laxly, carries the agent, a live expiry and its code is taken by Rust
when it is in Rust's form and by Python when the expiry is short enough; any other token is
taken by neither (`agree_iff`).
-/
import Mathlib
import Cognos.Grpc.Token

namespace Grpc

/-- The dictionary `verify_token` returns. -/
structure PythonToken where
  agentId : String
  expiry : Int
  token : String

namespace PythonToken

variable (U : Decimal.UnicodeData) (M : HmacSha256)

/-- `verify_token`, at the time `now`; the exceptions are named as Rust's errors are. -/
def verifyToken (token expectedAgent : String) (secret : List UInt8) (now : Int) :
    Except AuthError PythonToken :=
  match Token.readParts Base64.laxDecode token with
  | none => .error .invalidToken
  | some p =>
      if p.agentId ≠ expectedAgent then .error (.unknownAgent p.agentId)
      else
        match Decimal.pythonInt U p.expiry with
        | none => .error .invalidToken
        | some expiry =>
            if expiry ≤ now then .error .expired
            else if M.mac secret (Token.message p.agentId (toString expiry)) = p.signature then
              .ok ⟨p.agentId, expiry, token⟩
            else .error .signatureMismatch

/-- What a verified token is. -/
theorem verifyToken_ok_iff {token expectedAgent : String} {secret : List UInt8} {now : Int}
    {v : PythonToken} :
    verifyToken U M token expectedAgent secret now = .ok v ↔
      ∃ p expiry, Token.readParts Base64.laxDecode token = some p ∧ p.agentId = expectedAgent ∧
        Decimal.pythonInt U p.expiry = some expiry ∧ now < expiry ∧
        p.signature = M.mac secret (Token.message expectedAgent (toString expiry)) ∧
        v = ⟨expectedAgent, expiry, token⟩ := by
  constructor
  · intro h
    simp only [verifyToken] at h
    split at h
    · cases h
    · next p hparts =>
        split at h
        · cases h
        · next hagent =>
            have hexpected : p.agentId = expectedAgent := not_not.mp hagent
            split at h
            · cases h
            · next expiry hexpiry =>
                split at h
                · cases h
                · next hlive =>
                    split at h
                    · next hmac =>
                        rw [hexpected] at h hmac
                        cases h
                        exact ⟨p, expiry, hparts, hexpected, hexpiry, Int.not_le.mp hlive,
                          hmac.symm, rfl⟩
                    · cases h
  · rintro ⟨p, expiry, hparts, rfl, hexpiry, hlive, hsignature, rfl⟩
    simp only [verifyToken, hparts, hexpiry, Int.not_le.mpr hlive, hsignature, ne_eq,
      not_true_eq_false, if_false, if_true]

/-! ## Where the two verifiers agree -/

/-- Both accept, as the same agent until the same time, or both reject. -/
def Agree (token expectedAgent : String) (secret : List UInt8) (now : UInt64) : Prop :=
  (Token.verifyToken M token expectedAgent secret now).toOption.map
      (fun ctx => (ctx.agentId, (ctx.expiry.toNat : Int))) =
    (verifyToken U M token expectedAgent secret now.toNat).toOption.map
      fun v => (v.agentId, v.expiry)

/-- The number a text stands for, however many digits it has. -/
def anyInt (s : String) : Option Int :=
  (Decimal.readInt U s).map fun x => Decimal.signed x.1 (Decimal.value x.2)

/-- Read laxly, the token carries the agent, an expiry to come and the code of both. -/
def Carries (token expectedAgent : String) (secret : List UInt8) (now : UInt64) : Prop :=
  ∃ p expiry, Token.readParts Base64.laxDecode token = some p ∧ p.agentId = expectedAgent ∧
    anyInt U p.expiry = some expiry ∧ (now.toNat : Int) < expiry ∧
    p.signature = M.mac secret (Token.message expectedAgent (toString expiry))

/-- Rust's form: strict base64 in each part, a plain expiry below 2 ^ 64. -/
def RustForm (token : String) : Prop :=
  ∃ p expiry, Token.readParts Base64.decode token = some p ∧
    Decimal.parseU64 p.expiry = some expiry

/-- Python's limit: the expiry has at most 4300 digits. -/
def PythonForm (token : String) : Prop :=
  ∃ p x, Token.readParts Base64.laxDecode token = some p ∧ Decimal.readInt U p.expiry = some x ∧
    x.2.length ≤ Decimal.maxStrDigits

/-- What is read strictly is read laxly the same. -/
theorem readParts_lax {token : String} {p : Token.Parts}
    (h : Token.readParts Base64.decode token = some p) :
    Token.readParts Base64.laxDecode token = some p := by
  unfold Token.readParts at h ⊢
  split
  · next agent expiry signature hsplit =>
      simp only [hsplit, Option.bind_eq_bind, Option.bind_eq_some_iff] at h
      obtain ⟨agentId, ⟨abytes, ha, hautf⟩, expiryStr, ⟨ebytes, he, heutf⟩, supplied, hs, hp⟩ := h
      simp only [Base64.laxDecode_of_decode ha, Base64.laxDecode_of_decode he,
        Base64.laxDecode_of_decode hs, Option.bind_some, hautf, heutf, Option.bind_eq_bind]
      exact hp
  · next hsplit =>
      split at h
      · next agent expiry signature heq => exact absurd heq (hsplit _ _ _)
      · cases h

theorem anyInt_of_parseU64 {s : String} {n : UInt64} (h : Decimal.parseU64 s = some n) :
    anyInt U s = some (n.toNat : Int) := by
  rw [anyInt, Decimal.readInt_of_parseU64 U h, Option.map_some]
  exact congrArg (fun k : Nat => some (k : Int)) (Decimal.plain_of_parseU64 h).2

theorem pythonInt_iff {s : String} {z : Int} :
    Decimal.pythonInt U s = some z ↔ anyInt U s = some z ∧
      ∃ x, Decimal.readInt U s = some x ∧ x.2.length ≤ Decimal.maxStrDigits := by
  unfold Decimal.pythonInt anyInt
  cases hread : Decimal.readInt U s with
  | none => simp
  | some x =>
      by_cases hlen : x.2.length ≤ Decimal.maxStrDigits
      · simp [hlen]
      · simp [hlen]

section Agreement

variable {U M} {token expectedAgent : String} {secret : List UInt8} {now : UInt64}

/-- What Rust takes carries what it should, in Rust's form. -/
theorem carries_of_rust {ctx : AuthContext}
    (h : Token.verifyToken M token expectedAgent secret now = .ok ctx) :
    Carries U M token expectedAgent secret now ∧ RustForm token := by
  obtain ⟨p, expiry, hparts, hagent, hexpiry, hlive, hsignature, -⟩ :=
    (Token.verifyToken_ok_iff M).mp h
  have hlive' : (now.toNat : Int) < (expiry.toNat : Int) :=
    Int.ofNat_lt.mpr (UInt64.lt_iff_toNat_lt.mp hlive)
  exact ⟨⟨p, expiry.toNat, readParts_lax hparts, hagent, anyInt_of_parseU64 U hexpiry, hlive',
    hsignature⟩, p, expiry, hparts, hexpiry⟩

/-- What Python takes carries what it should, within Python's limit. -/
theorem carries_of_python {v : PythonToken}
    (h : verifyToken U M token expectedAgent secret now.toNat = .ok v) :
    Carries U M token expectedAgent secret now ∧ PythonForm U token := by
  obtain ⟨p, expiry, hparts, hagent, hexpiry, hlive, hsignature, -⟩ :=
    (verifyToken_ok_iff U M).mp h
  obtain ⟨hany, x, hread, hlen⟩ := (pythonInt_iff U).mp hexpiry
  exact ⟨⟨p, expiry, hparts, hagent, hany, hlive, hsignature⟩, p, x, hparts, hread, hlen⟩

/-- A carrying token in Rust's form is taken by Rust, as what it carries. -/
theorem rust_of_carries {p : Token.Parts} {expiry : Int}
    (hparts : Token.readParts Base64.laxDecode token = some p) (hagent : p.agentId = expectedAgent)
    (hexpiry : anyInt U p.expiry = some expiry) (hlive : (now.toNat : Int) < expiry)
    (hsignature : p.signature = M.mac secret (Token.message expectedAgent (toString expiry)))
    (hform : RustForm token) :
    ∃ ctx, Token.verifyToken M token expectedAgent secret now = .ok ctx ∧
      ctx.agentId = expectedAgent ∧ (ctx.expiry.toNat : Int) = expiry := by
  obtain ⟨p', n, hstrict, hn⟩ := hform
  have hp : p' = p := Option.some.inj ((readParts_lax hstrict).symm.trans hparts)
  subst hp
  have hz : (n.toNat : Int) = expiry :=
    Option.some.inj ((anyInt_of_parseU64 U hn).symm.trans hexpiry)
  subst hz
  have hlive' : now < n := UInt64.lt_iff_toNat_lt.mpr (Int.ofNat_lt.mp hlive)
  exact ⟨_, (Token.verifyToken_ok_iff M).mpr ⟨p', n, hstrict, hagent, hn, hlive', hsignature, rfl⟩,
    rfl, rfl⟩

/-- A carrying token within the limit is taken by Python, as what it carries. -/
theorem python_of_carries {p : Token.Parts} {expiry : Int}
    (hparts : Token.readParts Base64.laxDecode token = some p) (hagent : p.agentId = expectedAgent)
    (hexpiry : anyInt U p.expiry = some expiry) (hlive : (now.toNat : Int) < expiry)
    (hsignature : p.signature = M.mac secret (Token.message expectedAgent (toString expiry)))
    (hform : PythonForm U token) :
    verifyToken U M token expectedAgent secret now.toNat = .ok ⟨expectedAgent, expiry, token⟩ := by
  obtain ⟨p', x, hlax, hread, hlen⟩ := hform
  have hp : p' = p := Option.some.inj (hlax.symm.trans hparts)
  subst hp
  exact (verifyToken_ok_iff U M).mpr ⟨p', expiry, hparts, hagent,
    (pythonInt_iff U).mpr ⟨hexpiry, x, hread, hlen⟩, hlive, hsignature, rfl⟩

theorem toOption_eq_none {ε α : Type} {r : Except ε α} (h : ∀ a, r ≠ .ok a) :
    r.toOption = none := by
  cases r with
  | error e => rfl
  | ok a => exact absurd rfl (h a)

/-- The verifiers agree on a token exactly when it does not carry what it should, or is in
Rust's form and within Python's limit, or neither. -/
theorem agree_iff :
    Agree U M token expectedAgent secret now ↔
      (Carries U M token expectedAgent secret now → (RustForm token ↔ PythonForm U token)) := by
  by_cases hc : Carries U M token expectedAgent secret now
  · obtain ⟨p, expiry, hparts, hagent, hexpiry, hlive, hsignature⟩ := id hc
    have hrust : RustForm token → (Token.verifyToken M token expectedAgent secret now).toOption.map
        (fun ctx => (ctx.agentId, (ctx.expiry.toNat : Int))) = some (expectedAgent, expiry) := by
      intro hform
      obtain ⟨ctx, hok, ha, hz⟩ := rust_of_carries hparts hagent hexpiry hlive hsignature hform
      rw [hok, Except.toOption, Option.map_some, ha, hz]
    have hnotRust : ¬ RustForm token →
        (Token.verifyToken M token expectedAgent secret now).toOption = none := fun hform =>
      toOption_eq_none fun ctx hok => hform (carries_of_rust (U := U) hok).2
    have hpython : PythonForm U token →
        (verifyToken U M token expectedAgent secret now.toNat).toOption.map
          (fun v => (v.agentId, v.expiry)) = some (expectedAgent, expiry) := by
      intro hform
      rw [python_of_carries hparts hagent hexpiry hlive hsignature hform]
      rfl
    have hnotPython : ¬ PythonForm U token →
        (verifyToken U M token expectedAgent secret now.toNat).toOption = none := fun hform =>
      toOption_eq_none fun v hok => hform (carries_of_python hok).2
    unfold Agree
    by_cases hr : RustForm token
    · by_cases hp : PythonForm U token
      · simp [hc, hr, hp, hrust hr, hpython hp]
      · simp [hc, hr, hp, hrust hr, hnotPython hp]
    · by_cases hp : PythonForm U token
      · simp [hc, hr, hp, hnotRust hr, hpython hp]
      · simp [hc, hr, hp, hnotRust hr, hnotPython hp]
  · have hrust : (Token.verifyToken M token expectedAgent secret now).toOption = none :=
      toOption_eq_none fun ctx hok => hc (carries_of_rust hok).1
    have hpython : (verifyToken U M token expectedAgent secret now.toNat).toOption = none :=
      toOption_eq_none fun v hok => hc (carries_of_python hok).1
    rw [Agree, hrust, hpython]
    exact ⟨fun _ h => absurd h hc, fun _ => rfl⟩

end Agreement

/-! The golden token with the padding of its signature left on. -/

/-- No white space and no digits beyond ASCII. -/
def asciiOnly : Decimal.UnicodeData := ⟨fun _ => false, fun _ => none⟩

def paddedToken : String :=
  "YWdlbnQuY29vcmRpbmF0b3I.NDEwMjQ0NDgwMA.AYH0qbaVBua32kIEG5IrYiokWk8BmphU8x36Giw03RM="

theorem readParts_paddedToken :
    Token.readParts Base64.laxDecode paddedToken =
      some ⟨Token.Golden.agent, "4102444800", Token.Golden.signature⟩ := by
  decide +kernel

/-- Python takes it, Rust does not. -/
theorem not_agree_padded :
    ¬ Agree asciiOnly Token.Golden.hmac paddedToken Token.Golden.agent Token.Golden.secret
      1767225600 := by
  have hpython : verifyToken asciiOnly Token.Golden.hmac paddedToken Token.Golden.agent
      Token.Golden.secret (1767225600 : UInt64).toNat =
        .ok ⟨Token.Golden.agent, 4102444800, paddedToken⟩ := by
    refine (verifyToken_ok_iff _ _).mpr ⟨_, 4102444800, readParts_paddedToken, rfl, ?_, ?_, ?_, rfl⟩
    · decide +kernel
    · decide
    · exact Token.Golden.mac_eq.symm
  have hrust : Token.verifyToken Token.Golden.hmac paddedToken Token.Golden.agent
      Token.Golden.secret 1767225600 = .error .invalidToken := by
    have hparts : Token.readParts Base64.decode paddedToken = none := by decide +kernel
    simp only [Token.verifyToken, hparts]
  intro h
  rw [Agree, hpython, hrust] at h
  cases h

end PythonToken

end Grpc
