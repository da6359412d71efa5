import Mathlib

/-!
# Tokens

`auth.rs` issues a token that expires `ttl_secs` after it was issued, and verifies
one against the clock. The token itself is made and taken apart by the
`jsonwebtoken` crate, which is a parameter here (`Jsonwebtoken`), with what
`auth.rs` relies on as `Jsonwebtoken.Documented`.

Two things come between a token and the lifetime it was given. `verify` keeps the
leeway of sixty seconds that `Validation::new` sets, so a token is accepted for a
minute after it has expired; and `iat + ttl_secs` is a `u64` sum that wraps around
(as in a release build). `lifetime_iff` says when neither of them shows.

`now_secs` is an argument, the clock at the call.
-/

namespace Supermatchmaker.Auth

/-- `Claims`. -/
structure Claims where
  /-- Subject: the user id. -/
  sub : Int64
  /-- Issued at, in unix seconds. -/
  iat : UInt64
  /-- Expiry, in unix seconds. -/
  exp : UInt64
  deriving DecidableEq, Repr

/-- `AuthError`. -/
inductive AuthError where
  | malformed
  | badSignature
  | expired
  deriving DecidableEq, Repr

/-! ## The crate -/

/-- The algorithm of the header; `auth.rs` only ever uses this one. -/
inductive Algorithm where
  | hs256
  deriving DecidableEq, Repr

/-- The kinds of error `verify` tells apart; `other` is any of the rest. -/
inductive ErrorKind where
  | expiredSignature
  | invalidSignature
  | other
  deriving DecidableEq, Repr

/-- The settings of a validation that decide about these tokens. -/
structure Validation where
  algorithms : List Algorithm
  leeway : UInt64
  validateExp : Bool
  requiredSpecClaims : List String
  deriving DecidableEq, Repr

/-- What `auth.rs` calls of the crate. A key is made from the bytes of the secret, and
only the crate looks into a token. -/
structure Jsonwebtoken (Token : Type) where
  newValidation : Algorithm → Validation
  encode : Algorithm → Claims → List UInt8 → Option Token
  decode : (now : UInt64) → Token → List UInt8 → Validation → Except ErrorKind Claims

variable {Token : Type}

/-- What the crate promises: it encodes every claims value, decodes what it encoded
under the same key, and checks the expiry with the leeway of the validation, which is
sixty seconds in a new one. -/
structure Jsonwebtoken.Documented (J : Jsonwebtoken Token) : Prop where
  newValidation_eq (alg : Algorithm) : J.newValidation alg = ⟨[alg], 60, true, ["exp"]⟩
  encode_isSome (alg : Algorithm) (claims : Claims) (key : List UInt8) :
    (J.encode alg claims key).isSome
  decode_encode {alg : Algorithm} {claims : Claims} {key : List UInt8} {token : Token}
    (now : UInt64) (v : Validation) (henc : J.encode alg claims key = some token)
    (halg : alg ∈ v.algorithms) (hreq : v.requiredSpecClaims = []) :
    J.decode now token key v =
      if v.validateExp ∧ claims.exp.toNat + v.leeway.toNat < now.toNat then
        .error .expiredSignature
      else .ok claims

/-! ## auth.rs -/

/-- The claims of a token; the expiry is a `u64` sum. -/
def issueClaims (now : UInt64) (userId : Int64) (ttlSecs : UInt64) : Claims where
  sub := userId
  iat := now
  exp := now + ttlSecs

/-- `none` where the `expect` panics. -/
def issue (J : Jsonwebtoken Token) (now : UInt64) (userId : Int64) (secret : List UInt8)
    (ttlSecs : UInt64) : Option Token :=
  J.encode .hs256 (issueClaims now userId ttlSecs) secret

/-- The validation `verify` uses: the expiry is checked if there is one. -/
def validation (J : Jsonwebtoken Token) : Validation :=
  { J.newValidation .hs256 with validateExp := true, requiredSpecClaims := [] }

/-- `verify`. -/
def verify (J : Jsonwebtoken Token) (now : UInt64) (token : Token) (secret : List UInt8) :
    Except AuthError Claims :=
  match J.decode now token secret (validation J) with
  | .ok claims => .ok claims
  | .error .expiredSignature => .error .expired
  | .error .invalidSignature => .error .badSignature
  | .error .other => .error .malformed

/-! ## The lifetime -/

/-- What `verify` says at `now` to a token issued at `issuedAt`. -/
def verifyIssued (J : Jsonwebtoken Token) (userId : Int64) (secret : List UInt8)
    (ttlSecs issuedAt now : UInt64) : Option (Except AuthError Claims) :=
  (issue J issuedAt userId secret ttlSecs).map (verify J now · secret)

/-- The token lives exactly as long as it should, seen from `now`: its expiry is the sum
without overflow, it is accepted up to there, and refused as expired from there on. -/
def LifetimeExact (J : Jsonwebtoken Token) (userId : Int64) (secret : List UInt8)
    (ttlSecs issuedAt now : UInt64) : Prop :=
  (issueClaims issuedAt userId ttlSecs).exp.toNat = issuedAt.toNat + ttlSecs.toNat ∧
    (now.toNat ≤ issuedAt.toNat + ttlSecs.toNat →
      ∃ claims, verifyIssued J userId secret ttlSecs issuedAt now = some (.ok claims) ∧
        claims.sub = userId) ∧
    (issuedAt.toNat + ttlSecs.toNat < now.toNat →
      verifyIssued J userId secret ttlSecs issuedAt now = some (.error .expired))

theorem issueClaims_exp (issuedAt : UInt64) (userId : Int64) (ttlSecs : UInt64) :
    (issueClaims issuedAt userId ttlSecs).exp.toNat =
      (issuedAt.toNat + ttlSecs.toNat) % 2 ^ 64 :=
  UInt64.toNat_add issuedAt ttlSecs

/-- The expiry is the sum exactly if that fits into a `u64`. -/
theorem issueClaims_exp_eq_iff {issuedAt : UInt64} {userId : Int64} {ttlSecs : UInt64} :
    (issueClaims issuedAt userId ttlSecs).exp.toNat = issuedAt.toNat + ttlSecs.toNat ↔
      issuedAt.toNat + ttlSecs.toNat < 2 ^ 64 := by
  rw [issueClaims_exp]
  refine ⟨fun hexp => ?_, Nat.mod_eq_of_lt⟩
  rw [← hexp]
  exact Nat.mod_lt _ (by decide)

section

variable {J : Jsonwebtoken Token} (hJ : J.Documented)

include hJ

/-- `verify` asks for HS256 and for an expiry, and leaves the leeway of the library alone. -/
theorem validation_eq : validation J = ⟨[.hs256], 60, true, []⟩ := by
  unfold validation
  rw [hJ.newValidation_eq]

/-- **One token**: it is accepted up to the leeway behind its expiry. -/
theorem verify_encode {claims : Claims} {secret : List UInt8} {token : Token} (now : UInt64)
    (henc : J.encode .hs256 claims secret = some token) :
    verify J now token secret =
      if claims.exp.toNat + 60 < now.toNat then .error .expired else .ok claims := by
  have hdecode := hJ.decode_encode now ⟨[.hs256], 60, true, []⟩ henc (by decide) rfl
  unfold verify
  rw [validation_eq hJ, hdecode]
  by_cases hexp : claims.exp.toNat + 60 < now.toNat
  · rw [if_pos ⟨rfl, hexp⟩, if_pos hexp]
  · rw [if_neg (fun h => hexp h.2), if_neg hexp]

variable (userId : Int64) (secret : List UInt8) (ttlSecs issuedAt now : UInt64)

/-- **A token's life**: it is accepted until `exp` and a minute more. -/
theorem verifyIssued_eq : verifyIssued J userId secret ttlSecs issuedAt now =
    some (if (issueClaims issuedAt userId ttlSecs).exp.toNat + 60 < now.toNat then
      .error .expired else .ok (issueClaims issuedAt userId ttlSecs)) := by
  obtain ⟨token, htoken⟩ := Option.isSome_iff_exists.mp
    (hJ.encode_isSome .hs256 (issueClaims issuedAt userId ttlSecs) secret)
  have hissue : issue J issuedAt userId secret ttlSecs = some token := htoken
  unfold verifyIssued
  rw [hissue, Option.map_some, verify_encode hJ now htoken]

/-- **The lifetime is exact** just when the expiry does not overflow and the clock is not
in the minute behind it. -/
theorem lifetime_iff : LifetimeExact J userId secret ttlSecs issuedAt now ↔
    issuedAt.toNat + ttlSecs.toNat < 2 ^ 64 ∧
      (now.toNat ≤ issuedAt.toNat + ttlSecs.toNat ∨
        issuedAt.toNat + ttlSecs.toNat + 60 < now.toNat) := by
  unfold LifetimeExact
  rw [issueClaims_exp_eq_iff, verifyIssued_eq hJ]
  refine and_congr_right fun hlt => ?_
  rw [issueClaims_exp_eq_iff.mpr hlt]
  constructor
  · rintro ⟨-, hexpired⟩
    rcases Nat.lt_or_ge (issuedAt.toNat + ttlSecs.toNat) now.toNat with hgt | hle
    · have hsome := hexpired hgt
      by_cases hlate : issuedAt.toNat + ttlSecs.toNat + 60 < now.toNat
      · exact .inr hlate
      · rw [if_neg hlate] at hsome
        cases hsome
    · exact .inl hle
  · intro hnow
    refine ⟨fun hle => ⟨issueClaims issuedAt userId ttlSecs, ?_, rfl⟩, fun hgt => ?_⟩
    · rw [if_neg (by omega)]
    · rw [if_pos (by omega)]

end

/-! ## A concrete crate -/

/-- Tokens that carry their claims and key as they are. -/
def plainJwt : Jsonwebtoken (Claims × List UInt8) where
  newValidation alg := ⟨[alg], 60, true, ["exp"]⟩
  encode _ claims key := some (claims, key)
  decode now token key v :=
    if token.2 ≠ key then .error .invalidSignature
    else if v.validateExp ∧ token.1.exp.toNat + v.leeway.toNat < now.toNat then
      .error .expiredSignature
    else .ok token.1

theorem plainJwt_documented : plainJwt.Documented where
  newValidation_eq _ := rfl
  encode_isSome _ _ _ := rfl
  decode_encode now v henc _ _ := by
    cases henc
    exact if_neg (fun hkey => hkey rfl)

/-- A token for an hour, at its last second. -/
theorem lifetime_iff_hour :
    LifetimeExact plainJwt 42 [115, 51] 3600 1700000000 1700003600 :=
  (lifetime_iff plainJwt_documented 42 [115, 51] 3600 1700000000 1700003600).mpr (by decide)

/-- A token for no time at all is still accepted a second later. -/
theorem lifetime_inexact :
    ¬ ∀ (userId : Int64) (secret : List UInt8) (ttlSecs issuedAt now : UInt64),
      issuedAt ≤ now → LifetimeExact plainJwt userId secret ttlSecs issuedAt now := by
  intro hexact
  have hexpired := (hexact 42 [115, 51] 0 1700000000 1700000001 (by decide)).2.2 (by decide)
  have haccepted : verifyIssued plainJwt 42 [115, 51] 0 1700000000 1700000001 =
      some (.ok ⟨42, 1700000000, 1700000000⟩) := by rfl
  rw [haccepted] at hexpired
  cases hexpired

end Supermatchmaker.Auth
