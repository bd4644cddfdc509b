import YantraRgs.Await.RelyGuarantee
import YantraRgs.Portal.Moves
import YantraRgs.Properties.RecoveryCodes
import YantraRgs.Text.Split

/-! # Where the sessions of the portals come from

The calls of the portals take many steps, between which anything may happen; each step is one of those
that keep sessions traced.

* **`rules`** — what a call may do, and what the others may do meanwhile.
* **`login_go`**, **`verifyAuthentication_go`**, … — every call keeps to them.
* **`sessions_traced`** — sessions are traced in every state that the server can reach. -/

namespace YantraRgs.Portal

open Await Table

variable {env : Env} {w w' : World} {i j : Nat}

/-! ## The rules of a call -/

/-- The others hand out no token for what call `i` has answered. -/
def Apart (i : Nat) (w w' : World) : Prop :=
  ∀ use ∈ w.uses, use.call = i → ∀ m ∈ w'.tokens, m.challengeId = some use.challengeId → m ∈ w.tokens

/-- What the others may do while call `i` is under way. -/
def Others (i : Nat) (w w' : World) : Prop := Grows w w' ∧ Apart i w w'

theorem Others.refl (i : Nat) (w : World) : Others i w w := ⟨.refl w, fun _ _ _ _ hm _ => hm⟩

theorem Others.trans {w'' : World} (h : Others i w w') (h' : Others i w' w'') : Others i w w'' :=
  ⟨h.1.trans h'.1, fun use huse hcall m hm hn =>
    h.2 use huse hcall m (h'.2 use (h.1.uses use huse) hcall m hm hn) hn⟩

/-- **What one call does keeps out of the way of the others.** -/
theorem Move.others (h : Sound env w) (hmove : Move env j w w') (hne : i ≠ j) : Others i w w' := by
  refine ⟨hmove.grows, fun use huse hcall m hm hn => ?_⟩
  cases hmove with
  | minted via id user hearned hanswer =>
      rcases List.mem_append.mp hm with hm | hm
      · exact hm
      · obtain rfl := List.mem_singleton.mp hm
        obtain ⟨⟨use', huse', hcall', hchallenge⟩, -⟩ := hanswer _ hn
        obtain rfl := List.inj_on_of_nodup_map h.traced.once huse' huse hchallenge
        exact absurd (hcall.symm.trans hcall') hne
  | enrolled hc hkind huser hsession hcall' hlive hok hid hkey henrol =>
      obtain ⟨-, rfl⟩ := enrol_eq_ok henrol
      exact hm
  | signed hc hkind htime hcred hid hok hlogin =>
      obtain ⟨-, rfl⟩ := login_eq_ok hlogin
      exact hm
  | _ => exact hm

/-- The rules of call `i`. -/
def rules (env : Env) (i : Nat) : Rules World := ⟨Sound env, fun _ _ => True, Others i, Move env i⟩

/-- What a call may go on to do, and that nothing is lost on the way. -/
theorem go_grows {α : Type} {p : Action α} {Q : α → World → Prop} (h : Go (rules env i) i p Q w) :
    Go (rules env i) i p (fun a w' => Q a w' ∧ Grows w w') w :=
  h.track (T := Grows) (.refl w) .trans And.left fun _ hmove => hmove.grows

/-! ## Challenges -/

/-- **A challenge is drawn** for somebody for whom one may be. -/
theorem issueChallenge_go {userId : Option Nat} {email : Text} {kind : ChallengeKind} {Options : Type}
    {options : Text → Options}
    (hissued : ∀ w', Grows w w' → ∀ challenge expiresAt,
      Issued env w' ⟨userId, some email, challenge, kind, expiresAt, i, false⟩) :
    Go (rules env i) i (issueChallenge userId email kind options) (fun _ _ => True) w := by
  unfold issueChallenge
  refine Go.bind_iff.mpr (Go.lift fun w₁ hrely₁ _ drawn r w₂ hrun _ => ?_)
  obtain ⟨-, rfl⟩ := Prod.mk.inj (Option.some.inj hrun)
  refine ⟨.stayed, fun _ => Go.request fun w₃ hrely₃ _ _ => ⟨?_, fun _ => trivial⟩⟩
  exact .asked _ (hissued w₃ (hrely₁.1.trans hrely₃.1) _ _)

/-! ## Sessions -/

/-- What was read of a user some time ago. -/
def Known (w : World) (id : Nat) (user : OperatorUser) : Prop :=
  ∃ u, w.users[id]? = some u ∧ user.Later u

theorem Known.of_grows {id : Nat} {user : OperatorUser} (h : Known w id user) (hgrows : Grows w w') :
    Known w' id user := by
  obtain ⟨u, hu, hlater⟩ := h
  obtain ⟨u', hu', hlater'⟩ := hgrows.users id u hu
  exact ⟨u', hu', hlater'.trans hlater⟩

/-- **A token that was handed out** is one of the user whom it names, and has not ended. -/
theorem meant_of_verify (h : Sound env w) {token : Text} {claims : PortalJwtClaims}
    (hverify : env.jwtVerify token (w.now / 1000) = some claims) (hgrows : Grows w w') :
    Meant env w' (.session i claims.sub w.now (!w.minted env token)) := by
  cases hminted : w.minted env token with
  | false => trivial
  | true =>
      obtain ⟨m, hm, htoken⟩ := List.any_eq_true.mp hminted
      obtain ⟨hiat, hexp⟩ := h.past m hm
      rw [← of_decide_eq_true htoken, env.jwtVerify_jwtSign] at hverify
      split at hverify
      · cases hverify
      · rename_i hlive
        obtain rfl := Option.some.inj hverify
        exact ⟨m, hgrows.tokens m hm, rfl, hiat, hexp ▸ Nat.lt_of_not_le hlive⟩

/-- **The check of a session.** -/
theorem portalAuth_go (req : Credentials) :
    Go (rules env i) i (portalAuth env req)
      (fun r w' => ∀ x, r = .ok x → Session w' i x.1) w := by
  unfold portalAuth
  split
  · exact fun x hx => nomatch hx
  rename_i token _
  refine Go.bind_iff.mpr (Go.query (fun _ => .stayed) fun w₁ _ hsound => ?_)
  dsimp only
  split
  · exact fun x hx => nomatch hx
  rename_i claims hverify
  refine Go.request fun w₂ hrely _ _ => ?_
  split
  · exact ⟨.stayed, fun _ x hx => nomatch hx⟩
  split
  · exact ⟨.stayed, fun _ x hx => nomatch hx⟩
  · refine ⟨.noted _ (meant_of_verify hsound hverify hrely.1), fun _ x hx => ?_⟩
    obtain rfl := Except.ok.inj hx
    exact ⟨_, _, List.mem_append_right _ (List.mem_singleton_self _)⟩

/-! ## Devices -/

theorem beginRegistration_go {userId : Nat} (userEmail userDisplayName : Text)
    (hsession : Session w i userId) :
    Go (rules env i) i (beginRegistration env userId userEmail userDisplayName)
      (fun _ _ => True) w := by
  unfold beginRegistration
  refine Go.bind_iff.mpr (Go.query (fun _ => .stayed) fun w₁ hrely _ => issueChallenge_go ?_)
  exact fun w' hgrows _ _ => ⟨userId, rfl, (hsession.of_grows hrely.1).of_grows hgrows⟩

/-- **The confirmation of an enrolment**, in a session of the user. -/
theorem confirmRegistration_go {userId : Nat} (challengeId : Nat) (response : Value)
    (deviceName : Option Text) (hsession : Session w i userId) :
    Go (rules env i) i (confirmRegistration env userId challengeId response deviceName)
      (fun _ _ => True) w := by
  unfold confirmRegistration
  refine Go.bind_iff.mpr (Go.query (fun _ => .stayed) fun w₁ hrely₁ _ => ?_)
  split
  · trivial
  rename_i challenge hchallenge
  split
  · trivial
  rename_i hmatch
  rw [not_or, not_not, not_not] at hmatch
  refine Go.bind_iff.mpr (Go.query (fun _ => .stayed) fun w₂ hrely₂ _ => ?_)
  split
  · trivial
  split
  · trivial
  · trivial
  rename_i info hok
  refine Go.request fun w₃ hrely₃ _ _ => ⟨?_, fun _ => trivial⟩
  have hgrows : Grows w₁ w₃ := hrely₂.1.trans hrely₃.1
  cases henrol : w₃.enrol i challengeId (info.row userId deviceName i) response with
  | error e => exact .stayed
  | ok w₄ =>
      obtain ⟨c, hc, hlater⟩ := hgrows.challenges _ _ (challenge_eq_some.mp hchallenge).1
      obtain ⟨huser, -, -, hkind, -, -⟩ := WebauthnChallenge.mk.inj hlater.1
      exact .enrolled hc (hkind.trans hmatch.2) (huser.trans hmatch.1)
        ((hsession.of_grows hrely₁.1).of_grows hgrows) rfl rfl (hlater.expected ▸ hok) rfl rfl henrol

theorem deleteCredential_go {userId : Nat} (credentialRowId : Nat) (hsession : Session w i userId) :
    Go (rules env i) i (deleteCredential userId credentialRowId) (fun _ _ => True) w := by
  unfold deleteCredential
  refine Go.bind_iff.mpr (Go.query (fun _ => .stayed) fun w₁ hrely₁ _ => ?_)
  split
  · trivial
  rename_i row hrow
  split
  · trivial
  rename_i howner
  rw [not_not] at howner
  refine Go.request fun w₂ hrely₂ _ _ => ⟨?_, fun _ => trivial⟩
  split
  · exact .stayed
  obtain ⟨row', hrow', hsame⟩ := hrely₂.1.credentials _ _ (credential_eq_some.mp hrow).1
  obtain ⟨huser, -⟩ := WebauthnCredential.mk.inj hsame
  refine .removed _ row' hrow' ?_
  rw [huser, howner]
  exact (hsession.of_grows hrely₁.1).of_grows hrely₂.1

theorem sweepExpiredChallenges_go :
    Go (rules env i) i sweepExpiredChallenges (fun _ _ => True) w := by
  refine Go.request fun w₁ _ _ _ => ⟨.swept _ fun c => ?_, fun _ => trivial⟩
  split
  · exact ⟨rfl, fun _ => rfl⟩
  · exact .refl c

/-! ## Passwords and second factors -/

/-- **A password is compared** with that of a user. -/
theorem comparePassword_go {id : Nat} {user : OperatorUser} (password : Text)
    (hknown : Known w id user) :
    Go (rules env i) i (comparePassword env id user password)
      (fun ok w' => ok = true → Check.password i id ∈ w'.checks) w := by
  refine Go.request fun w₁ hrely _ _ => ?_
  split
  · rename_i hok
    obtain ⟨u, hu, hlater⟩ := hknown.of_grows hrely.1
    have hhash : u.passwordHash = user.passwordHash := congrArg (fun x => x.2.2) hlater
    refine ⟨.noted _ ⟨u, password, hu, hhash ▸ hok⟩, fun _ _ => ?_⟩
    exact List.mem_append_right _ (List.mem_singleton_self _)
  · exact ⟨.stayed, fun _ h => nomatch h⟩

theorem countDevices_go {id : Nat} {user : OperatorUser} :
    Go (rules env i) i (countDevices id user) (fun count w' =>
      ¬ (user.secondFactor.mfaEnrolledAt.isSome = true ∨ 0 < count) →
        Check.noSecondFactor i id ∈ w'.checks) w := by
  refine Go.request fun w₁ _ _ _ => ?_
  dsimp only
  split
  · exact ⟨.noted _ trivial, fun _ _ => List.mem_append_right _ (List.mem_singleton_self _)⟩
  · rename_i hfactor
    refine ⟨.stayed, fun _ hnone => absurd ?_ hfactor⟩
    rw [not_or, Bool.not_eq_true, Option.isSome_eq_false_iff, Nat.not_lt, Nat.le_zero,
      List.length_eq_zero_iff] at hnone
    exact hnone

theorem checkCode_go {id : Nat} (code : Text) :
    Go (rules env i) i (checkCode env id code)
      (fun r w' => r = .ok true → Check.secondFactor i id ∈ w'.checks) w := by
  refine Go.request fun w₁ _ _ _ => ?_
  split
  · exact ⟨.stayed, fun _ h => nomatch h⟩
  rename_i checked _
  dsimp only
  split
  · exact ⟨.noted _ trivial, fun _ _ => List.mem_append_right _ (List.mem_singleton_self _)⟩
  · rename_i hnot
    exact ⟨.stayed, fun _ h => absurd (Except.ok.inj h) hnot⟩

/-- **The second factor**: there is none, or its code was checked. -/
theorem secondFactor_go {id : Nat} {user : OperatorUser} (mfaCode : Option Text) :
    Go (rules env i) i (secondFactor env id user mfaCode) (fun r w' => r = .ok () →
      Check.noSecondFactor i id ∈ w'.checks ∨ Check.secondFactor i id ∈ w'.checks) w := by
  unfold secondFactor
  refine Go.bind_iff.mpr (countDevices_go.mono fun count w₁ hcount => ?_)
  split
  · split
    · exact fun h => nomatch h
    split
    · exact fun h => nomatch h
    refine Go.bind_iff.mpr ((checkCode_go _).mono fun r w₂ hcode => ?_)
    split
    · exact fun h => nomatch h
    · exact fun h => nomatch h
    · exact fun _ => .inr (hcode rfl)
  · rename_i hnone
    exact fun _ => .inl (hcount hnone)

/-! ## Tokens -/

/-- **A user may be handed a token** by call `i`: it is earned, and no other was handed out for the same
answer. -/
structure Entitled (i : Nat) (w : World) (via : Via) (id : Nat) : Prop where
  earned : ∀ claims, claims.sub = id → Earned w ⟨via, claims⟩
  answer : ∀ claims, ∀ n ∈ (PortalToken.mk via claims).challengeId,
    (∃ use ∈ w.uses, use.call = i ∧ use.challengeId = n) ∧ ∀ m ∈ w.tokens, m.challengeId ≠ some n

theorem Entitled.of_others {via : Via} {id : Nat} (h : Entitled i w via id) (hrely : Others i w w') :
    Entitled i w' via id := by
  refine ⟨fun claims hsub => (h.earned claims hsub).of_grows hrely.1, fun claims n hn => ?_⟩
  obtain ⟨⟨use, huse, hcall, hchallenge⟩, hnone⟩ := h.answer claims n hn
  refine ⟨⟨use, hrely.1.uses use huse, hcall, hchallenge⟩, fun m hm hmn => ?_⟩
  exact hnone m (hrely.2 use huse hcall m hm (hchallenge ▸ hmn)) hmn

/-- **A user is signed in** who may be. -/
theorem signIn_go {via : Nat → Via} {id : Nat} {user : OperatorUser} {operator : Operator}
    {environment : Option Text} (h : Entitled i w (via i) id) :
    Go (rules env i) i (signIn env via id user operator environment) (fun _ _ => True) w := by
  unfold signIn
  refine Go.bind_iff.mpr (Go.modify fun w₁ hrely₁ _ _ => ?_)
  have hmove : Move env i w₁ (w₁.touch id) := .seen id _ fun _ => rfl
  refine ⟨hmove, fun _ => Go.bind_iff.mpr (Go.request fun w₂ hrely₂ _ _ => ⟨?_, fun _ => trivial⟩)⟩
  have htouch : Others i w₁ (w₁.touch id) := ⟨hmove.grows, fun _ _ _ _ hm _ => hm⟩
  have hnow := ((h.of_others hrely₁).of_others htouch).of_others hrely₂
  exact .minted (via i) id user (hnow.earned _ rfl) (hnow.answer _)

/-! ## Signing in -/

theorem login_go (body : LoginBody) :
    Go (rules env i) i (login env body) (fun _ _ => True) w := by
  unfold login
  split
  · trivial
  refine Go.bind_iff.mpr (Go.query (fun _ => .stayed) fun w₁ _ _ => ?_)
  split
  · trivial
  rename_i id user operator hfound
  obtain ⟨⟨n, u⟩, huser, hpair⟩ := Option.map_eq_some_iff.mp hfound
  obtain ⟨rfl, rfl⟩ := Prod.mk.inj (Prod.mk.inj hpair).1
  have hknown : Known w₁ n u := ⟨u, (userOfEmail_eq_some huser).1, rfl⟩
  split
  · trivial
  refine Go.bind_iff.mpr ((go_grows (comparePassword_go _ hknown)).mono fun ok w₂ ⟨hpassword, _⟩ => ?_)
  split
  · trivial
  rename_i hok
  rw [not_not] at hok
  split
  · trivial
  refine Go.bind_iff.mpr ((go_grows (secondFactor_go _)).mono fun checked w₃ ⟨hfactor, hgrows⟩ => ?_)
  split
  · trivial
  · refine signIn_go ⟨fun claims hsub => ?_, fun claims m hm => nomatch hm⟩
    obtain rfl := hsub
    exact ⟨hgrows.checks _ (hpassword hok), hfactor rfl⟩

/-- A challenge for an address, of a user whose password was checked. -/
theorem beginAuthentication_go {id : Nat} {user : OperatorUser} (hknown : Known w id user)
    (hpassword : Check.password i id ∈ w.checks) :
    Go (rules env i) i (beginAuthentication env user.email) (fun _ _ => True) w := by
  have hissued : ∀ w', Grows w w' → ∀ userId challenge expiresAt, Issued env w'
      ⟨userId, some (env.toLowerCase user.email), challenge, .authenticate, expiresAt, i, false⟩ := by
    intro w' hgrows userId challenge expiresAt
    obtain ⟨u, hu, hlater⟩ := hknown.of_grows hgrows
    have hemail : u.email = user.email := congrArg (fun x => x.2.1) hlater
    exact ⟨id, u, hgrows.checks _ hpassword, hu, congrArg (some ∘ env.toLowerCase) hemail.symm⟩
  unfold beginAuthentication
  dsimp only
  refine Go.bind_iff.mpr (Go.query (fun _ => .stayed) fun w₁ hrely₁ _ => ?_)
  split
  · refine Go.bind_iff.mpr ((issueChallenge_go fun w' hgrows _ _ => ?_).mono fun _ _ _ => trivial)
    exact hissued w' (hrely₁.1.trans hgrows) _ _ _
  · refine Go.bind_iff.mpr (Go.query (fun _ => .stayed) fun w₂ hrely₂ _ => ?_)
    split
    · trivial
    · refine Go.bind_iff.mpr ((issueChallenge_go fun w' hgrows _ _ => ?_).mono fun _ _ _ => trivial)
      exact hissued w' ((hrely₁.1.trans hrely₂.1).trans hgrows) _ _ _

theorem webauthnBegin_go (email password : Text) :
    Go (rules env i) i (webauthnBegin env email password) (fun _ _ => True) w := by
  unfold webauthnBegin
  split
  · trivial
  refine Go.bind_iff.mpr (Go.query (fun _ => .stayed) fun w₁ _ _ => ?_)
  split
  · trivial
  rename_i id user huser
  have hknown : Known w₁ id user := ⟨user, (userOfEmail_eq_some huser).1, rfl⟩
  split
  · trivial
  refine Go.bind_iff.mpr ((go_grows (comparePassword_go _ hknown)).mono
    fun ok w₂ ⟨hpassword, hgrows⟩ => ?_)
  split
  · trivial
  rename_i hok
  rw [not_not] at hok
  refine Go.bind_iff.mpr ((beginAuthentication_go (hknown.of_grows hgrows) (hpassword hok)).mono
    fun challenge w₃ _ => ?_)
  split
  · trivial
  · trivial

/-- **A signature that was taken in entitles its user to a token.** -/
theorem verifyAuthentication_go (email : Text) (challengeId : Nat) (response : AuthenticationResponse) :
    Go (rules env i) i (verifyAuthentication env email challengeId response) (fun r w' =>
      ∀ v, r = .ok v → Entitled i w' (.webauthn i challengeId v.credential) v.userId) w := by
  unfold verifyAuthentication
  refine Go.bind_iff.mpr (Go.query (fun _ => .stayed) fun w₁ _ _ => ?_)
  split
  · exact fun v h => nomatch h
  rename_i challenge hchallenge
  split
  · exact fun v h => nomatch h
  rename_i hmatch
  rw [not_or, not_not] at hmatch
  refine Go.bind_iff.mpr (Go.query (fun _ => .stayed) fun w₂ hrely₂ _ => ?_)
  split
  · exact fun v h => nomatch h
  rename_i htime
  refine Go.bind_iff.mpr (Go.query (fun _ => .stayed) fun w₃ hrely₃ _ => ?_)
  split
  · exact fun v h => nomatch h
  rename_i id cred hcred
  obtain ⟨hrow, hid⟩ := credentialNamed_eq_some hcred
  split
  · exact fun v h => nomatch h
  · exact fun v h => nomatch h
  rename_i newCounter hok
  refine Go.request fun w₄ hrely₄ hsound _ => ?_
  cases hlogin : w₄.login i challengeId id response cred.counter newCounter w₂.now with
  | error e => exact ⟨.stayed, fun _ v h => nomatch h⟩
  | ok w₅ =>
      obtain ⟨c, hc, hlater⟩ := ((hrely₂.1.trans hrely₃.1).trans hrely₄.1).challenges _ _
        (challenge_eq_some.mp hchallenge).1
      obtain ⟨-, -, -, hkind, hexpires, -⟩ := WebauthnChallenge.mk.inj hlater.1
      obtain ⟨cred', hrow', hsame⟩ := hrely₄.1.credentials _ _ hrow
      obtain ⟨huser, hcredId, hkey, -, htransports, -⟩ := WebauthnCredential.mk.inj hsame
      have hmove : Move env i w₄ w₅ := by
        refine .signed hc (hkind.trans hmatch.1) (hexpires ▸ Nat.le_of_not_lt htime) hrow'
          (hcredId.trans hid) ?_ hlogin
        rw [hlater.expected, hcredId, hkey, htransports]
        exact hok
      refine ⟨hmove, fun _ v hv => ?_⟩
      obtain rfl := Except.ok.inj hv
      obtain ⟨cred'', hrow'', hsame'⟩ := hmove.grows.credentials _ _ hrow'
      have huser' : cred''.userId = cred'.userId := (WebauthnCredential.mk.inj hsame').1
      obtain ⟨⟨c', hc'⟩, hw₅⟩ := login_eq_ok hlogin
      subst hw₅
      have huse : Use.login i challengeId id response cred.counter newCounter w₂.now ∈
          w₄.uses ++ [Use.login i challengeId id response cred.counter newCounter w₂.now] :=
        List.mem_append_right _ (List.mem_singleton_self _)
      refine ⟨fun claims hsub => ?_, fun claims n hn => ⟨⟨_, huse, rfl, Option.some.inj hn⟩, ?_⟩⟩
      · exact ⟨_, _, _, _, cred'', huse, hrow'', (huser'.trans huser).trans hsub.symm⟩
      · -- the challenge was not answered before, so no token is there for it
        intro m hm hmn
        obtain ⟨use, huse, hanswer⟩ := (hsound.traced.earned m hm).answer hmn
        exact hsound.fresh hc' use huse (hanswer.trans (Option.some.inj hn).symm)

theorem webauthnVerify_go (email : Text) (challengeId : Nat) (response : AuthenticationResponse) :
    Go (rules env i) i (webauthnVerify env email challengeId response) (fun _ _ => True) w := by
  unfold webauthnVerify
  split
  · trivial
  refine Go.bind_iff.mpr ((verifyAuthentication_go _ _ _).mono fun r w₁ hverified => ?_)
  split
  · trivial
  · trivial
  rename_i verified
  have hentitled := hverified verified rfl
  refine Go.bind_iff.mpr (Go.query (fun _ => .stayed) fun w₂ hrely₂ _ => ?_)
  split
  · trivial
  · exact signIn_go (hentitled.of_others hrely₂)

/-! ## Runs -/

/-- A request of a session. -/
theorem session_go (req : Credentials) {body : Nat → OperatorUser → Action Unit}
    (hbody : ∀ id user w', Session w' i id → Go (rules env i) i (body id user) (fun _ _ => True) w') :
    Go (rules env i) i (session env req body) (fun _ _ => True) w := by
  unfold session
  refine Go.bind_iff.mpr ((portalAuth_go req).mono fun r w₁ hsession => ?_)
  split
  · trivial
  · rename_i id user
    exact hbody id user w₁ (hsession (id, user) rfl)

/-- Every call keeps to the rules. -/
theorem code_go (k : Call) : Go (rules env i) i (k.code env) (fun _ _ => True) w := by
  cases k with
  | login body => exact Go.bind_iff.mpr ((login_go body).mono fun _ _ _ => trivial)
  | webauthnBegin email password =>
      exact Go.bind_iff.mpr ((webauthnBegin_go email password).mono fun _ _ _ => trivial)
  | webauthnVerify email challengeId response =>
      exact Go.bind_iff.mpr ((webauthnVerify_go email challengeId response).mono fun _ _ _ => trivial)
  | registerBegin req =>
      exact session_go req fun id user w' hsession =>
        Go.bind_iff.mpr ((beginRegistration_go _ _ hsession).mono fun _ _ _ => trivial)
  | registerConfirm req challengeId response deviceName =>
      refine session_go req fun id user w' hsession => ?_
      split
      · exact Go.bind_iff.mpr ((confirmRegistration_go _ _ _ hsession).mono fun _ _ _ => trivial)
      · trivial
  | deleteCredential req credentialRowId =>
      exact session_go req fun id user w' hsession =>
        Go.bind_iff.mpr ((deleteCredential_go _ hsession).mono fun _ _ _ => trivial)
  | sweep => exact Go.bind_iff.mpr (sweepExpiredChallenges_go.mono fun _ _ _ => trivial)

/-- **What happens outside** is one or two such steps, too. -/
theorem outside_moves {x : Outside} (h : w.outside env x = some w') (i : Nat) :
    ∃ w₁, Move env i w w₁ ∧ Move env i w₁ w' ∧ w'.uses = w.uses ∧
      ∀ m ∈ w'.tokens, m ∈ w.tokens ∨ m.challengeId = none := by
  cases x with
  | elapse ms =>
      obtain rfl := Option.some.inj h
      exact ⟨_, .stayed, .elsewhere _ _ (Nat.le_add_right _ _), rfl, fun m hm => .inl hm⟩
  | addOperator operator =>
      obtain rfl := Option.some.inj h
      exact ⟨_, .stayed, .elsewhere _ _ (Nat.le_refl _), rfl, fun m hm => .inl hm⟩
  | setStatus operatorId status =>
      obtain rfl := Option.some.inj h
      exact ⟨_, .stayed, .elsewhere _ _ (Nat.le_refl _), rfl, fun m hm => .inl hm⟩
  | accept operatorId email passwordHash role displayName =>
      unfold World.outside at h
      dsimp only at h
      split at h
      · cases h
      obtain rfl := Option.some.inj h
      refine ⟨_, .joined _, .minted .invitation _ _ trivial (fun n hn => nomatch hn), rfl,
        fun m hm => ?_⟩
      rcases List.mem_append.mp hm with hm | hm
      · exact .inl hm
      · exact .inr (List.mem_singleton.mp hm ▸ rfl)
  | setDisabled userId disabledAt =>
      obtain rfl := Option.some.inj h
      exact ⟨_, .stayed, .seen userId _ (fun _ => rfl), rfl, fun m hm => .inl hm⟩
  | setFactor userId secondFactor =>
      obtain rfl := Option.some.inj h
      exact ⟨_, .stayed, .seen userId _ (fun _ => rfl), rfl, fun m hm => .inl hm⟩

/-- The rules of the calls fit together. -/
def discipline (env : Env) : Discipline (portalServer env) Anything where
  inv := Sound env
  permit _ _ _ _ := True
  envPermit _ _ _ := True
  envFits _ _ _ _ := True
  compat _ _ := True
  rely i _ := Others i
  guar i _ := Move env i
  permit_of _ _ := trivial
  envPermit_of _ := trivial
  envFits_of _ _ _ _ := trivial
  compat_of _ _ _ _ _ := ⟨trivial, trivial⟩
  rely_refl i _ := .refl i
  rely_trans _ _ _ _ _ h h' := h.trans h'
  guar_inv h _ hmove := hmove.sound h
  env_inv h _ hw := by
    obtain ⟨w₁, hmove, hmove', -, -⟩ := outside_moves hw 0
    exact hmove'.sound (hmove.sound h)
  guar_rely hne _ h _ hmove := hmove.others h hne
  env_rely {i} _ _ _ _ _ _ _ hw _ := by
    obtain ⟨w₁, hmove, hmove', -, htokens⟩ := outside_moves hw i
    refine ⟨hmove.grows.trans hmove'.grows, fun use _ _ m hm hn => ?_⟩
    rcases htokens m hm with hm | hnone
    · exact hm
    · rw [hnone] at hn
      cases hn
  code_go {_ k _} _ _ _ := (Portal.code_go k).mono fun _ _ _ => trivial

/-- A server without sessions is in order. -/
theorem sound_initial (now : Millis) (operators : List Operator) (users : List OperatorUser) :
    Sound env (initial now operators users).world :=
  ⟨⟨fun _ h => (nomatch h), fun _ _ h => (nomatch h), List.nodup_nil, fun _ h => (nomatch h),
    fun _ h => (nomatch h), List.nodup_nil, fun _ _ h => (nomatch h)⟩, fun _ h => (nomatch h),
    fun _ h => (nomatch h), fun _ _ h => (nomatch h)⟩

/-- **Sessions are traced** in every state that the server can reach: whatever calls interleave, are cut
off, and race with changes of users and operators. -/
theorem sessions_traced {now : Millis} {operators : List Operator} {users : List OperatorUser}
    {q : State} (hrun : (portalServer env).Run Anything (initial now operators users) q) :
    Traced env q.world :=
  ((Discipline.ok_of_no_tasks (D := discipline env) (sound_initial now operators users)).run
    hrun).inv.traced

/-! ## A run -/

namespace Sample

open UserInvites (InviteRole)

/-- The numbers of a token. -/
def numbers (c : PortalJwtClaims) : List Nat :=
  c.sub :: c.operatorId :: (if c.role = .operatorAdmin then 0 else if c.role = .operatorFinance then 1
    else if c.role = .operatorSupport then 2 else 3) :: c.iat :: c.exp :: c.email.map Char.toNat

/-- What the numbers of a token say. -/
def claimsOf : List Nat → Option PortalJwtClaims
  | sub :: operatorId :: role :: iat :: exp :: email =>
      some ⟨sub, operatorId, if role = 0 then .operatorAdmin else if role = 1 then .operatorFinance
        else if role = 2 then .operatorSupport else .operatorViewer, email.map Char.ofNat, iat, exp⟩
  | _ => none

theorem claimsOf_numbers (c : PortalJwtClaims) : claimsOf (numbers c) = some c := by
  obtain ⟨sub, operatorId, role, email, iat, exp⟩ := c
  have hemail : (email.map Char.toNat).map Char.ofNat = email := by
    rw [List.map_map]
    conv_rhs => rw [← List.map_id email]
    exact List.map_congr_left fun c _ => Char.ofNat_toNat c
  rw [numbers, claimsOf, hemail]
  cases role <;> rfl

/-- A token is its numbers, with dots between them. -/
def jwtSign (c : PortalJwtClaims) : Text := Split.join '.' ((numbers c).map (Nat.toDigits 10))

/-- What a token says, until it ends. -/
def jwtVerify (token : Text) (seconds : Nat) : Option PortalJwtClaims :=
  (claimsOf ((token.splitOn '.').map fun digits => Nat.ofDigitChars 10 digits 0)).filter fun c =>
    ¬ c.exp ≤ seconds

theorem jwtVerify_jwtSign (c : PortalJwtClaims) (seconds : Nat) :
    jwtVerify (jwtSign c) seconds = if c.exp ≤ seconds then none else some c := by
  have hdot : ∀ digits ∈ (numbers c).map (Nat.toDigits 10), '.' ∉ digits := by
    intro digits hdigits hmem
    obtain ⟨n, -, rfl⟩ := List.mem_map.mp hdigits
    have hdigit := Nat.isDigit_of_mem_toDigits (by decide) (by decide) hmem
    exact absurd hdigit (by decide)
  have hne : (numbers c).map (Nat.toDigits 10) ≠ [] := List.cons_ne_nil _ _
  have hread : ((jwtSign c).splitOn '.').map (fun digits => Nat.ofDigitChars 10 digits 0) =
      numbers c := by
    rw [jwtSign, Split.join, List.splitOn_intercalate _ hdot hne, List.map_map]
    conv_rhs => rw [← List.map_id (numbers c)]
    exact List.map_congr_left fun n _ => Nat.ofDigitChars_ten_toDigits
  rw [jwtVerify, hread, claimsOf_numbers, Option.filter_some]
  by_cases hexp : c.exp ≤ seconds
  · simp [hexp]
  · simp [hexp]

/-- The text that a device has signed. -/
def signedText (vs : List Value) : Text :=
  vs.map fun v =>
    match v with
    | .bigint n => Char.ofNat n.toNat
    | _ => ' '

/-- A device has signed a text, with a counter. -/
def signature (counter : Nat) (challenge : Text) : Value :=
  .array (.bigint counter :: challenge.map fun c => .bigint c.toNat)

/-- The counter with which a text was signed. -/
def verifySignature (response : Value) (challenge : Text) : Option Nat :=
  match response with
  | .array (.bigint counter :: vs) => if signedText vs = challenge then some counter.toNat else none
  | _ => none

/-- The primitives. -/
def primitives : Env where
  mfa := Mfa.Sample.primitives
  toLowerCase s := s.map Char.toLower
  isEmail s := '@' ∈ s
  bcryptCompare password hash := hash = '$' :: password
  jwtSign := jwtSign
  jwtVerify := jwtVerify
  jwtVerify_jwtSign := jwtVerify_jwtSign
  WEBAUTHN_RP_ID := none
  WEBAUTHN_RP_NAME := none
  WEBAUTHN_ORIGINS := none
  verifyRegistrationResponse response expected :=
    .ok ((verifySignature response expected.expectedChallenge).map fun counter =>
      ⟨Nat.toDigits 10 counter, [7], counter, none, none, none⟩)
  verifyAuthenticationResponse response expected device :=
    .ok ((verifySignature response.rest expected.expectedChallenge).filter fun counter =>
      device.counter < counter ∨ (device.counter = 0 ∧ counter = 0))
  counter_rises response expected device newCounter h :=
    of_decide_eq_true (Option.filter_eq_some_iff.mp (Except.ok.inj h)).2

/-- The request of user `n`, whose invitation was accepted in the first second. -/
def request (n : Nat) (email : Text) : Credentials where
  authorization := some ("Bearer ".toList ++
    jwtSign ((invited 0 email [] .operatorViewer []).claims n 1000))
  portal_token := none

/-- Call `i` runs its next `n` actions; what is drawn is a text. -/
def runs (i n : Nat) (drawn : Text) : List Happening := List.replicate n (.run i drawn)

/-- Ann and Bob accept their invitations. -/
def inviting : List Happening :=
  [.env (.accept 0 "ann@x.test".toList "$blue".toList .operatorViewer "Ann".toList),
    .env (.accept 0 "bob@x.test".toList "$red".toList .operatorViewer "Bob".toList)]

/-- The calls `i` and `i + 1` enrol a device for user `n`, under the name `key`, with challenge `c`. -/
def enrolling (i n key c : Nat) (email : Text) : List Happening :=
  [.call (.registerBegin (request n email))] ++ runs i 5 "one".toList ++
    [.call (.registerConfirm (request n email) c (signature key "one".toList) none)] ++ runs (i + 1) 5 []

/-- Somebody with an address and its password asks for challenge `c` in call `i`; device 1 answers in the
next one. -/
def signing (i c : Nat) (email password : Text) : List Happening :=
  [.call (.webauthnBegin email password)] ++ runs i 6 "two".toList ++
    [.call (.webauthnVerify email c ⟨"1".toList, signature 2 "two".toList⟩)] ++ runs (i + 1) 7 []

/-- Ann enrols a device and signs in with it. -/
def ownPassword : List Happening :=
  inviting ++ enrolling 0 0 1 0 "ann@x.test".toList ++ signing 2 1 "ann@x.test".toList "blue".toList

/-- Ann and Bob enrol devices, and Ann's device answers a challenge that Bob has asked for. -/
def othersPassword : List Happening :=
  inviting ++ enrolling 0 0 1 0 "ann@x.test".toList ++ enrolling 2 1 5 1 "bob@x.test".toList ++
    signing 4 2 "bob@x.test".toList "red".toList

/-- The operator. -/
def operator : Operator where
  slug := "one".toList
  name := "One".toList
  defaultCurrency := "EUR".toList
  jurisdiction := "MT".toList
  environment := "live".toList
  status := .active

end Sample

/-- Ann signs in with her device. -/
theorem sessions_traced_device : ∃ q : State,
    (portalServer Sample.primitives).Run Anything (initial 1000 [Sample.operator] []) q ∧
      Traced Sample.primitives q.world ∧ q.world.tokens.map (fun m => (m.via, m.claims.sub)) =
        [(.invitation, 0), (.invitation, 1), (.webauthn 3 1 0, 0)] := by
  have hexec : ((portalServer Sample.primitives).exec Anything (initial 1000 [Sample.operator] [])
      Sample.ownPassword).map (fun q => q.world.tokens.map fun m => (m.via, m.claims.sub)) =
      some [(.invitation, 0), (.invitation, 1), (.webauthn 3 1 0, 0)] := by
    decide +kernel
  obtain ⟨q, hrun, htokens⟩ := System.Run.of_exec_map hexec
  exact ⟨q, hrun, sessions_traced hrun, htokens⟩

/-- The users whose passwords were checked. -/
def World.passwords (w : World) : List Nat :=
  w.checks.filterMap fun check =>
    match check with
    | .password _ userId => some userId
    | _ => none

/-- **The password need not be the user's own**: Ann's device answers a challenge that was made for
Bob's password, and Ann is signed in whose password nobody has checked. -/
theorem token_without_password : ¬ ∀ (env : Env) (now : Millis) (operators : List Operator)
    (users : List OperatorUser) (q : State),
    (portalServer env).Run Anything (initial now operators users) q →
      ∀ m ∈ q.world.tokens, m.via = .invitation ∨ m.claims.sub ∈ q.world.passwords := by
  intro h
  have hexec : ((portalServer Sample.primitives).exec Anything (initial 1000 [Sample.operator] [])
      Sample.othersPassword).map (fun q =>
        (q.world.tokens.map fun m => (m.via, m.claims.sub), q.world.passwords)) =
      some ([(.invitation, 0), (.invitation, 1), (.webauthn 5 2 0, 0)], [1]) := by
    decide +kernel
  obtain ⟨q, hrun, hq⟩ := System.Run.of_exec_map hexec
  obtain ⟨htokens, hpasswords⟩ := Prod.mk.inj hq
  have hmem : ((Via.webauthn 5 2 0, 0) : Via × Nat) ∈
      q.world.tokens.map fun m => (m.via, m.claims.sub) := by
    rw [htokens]
    exact List.mem_cons_of_mem _ (List.mem_cons_of_mem _ (List.mem_singleton_self _))
  obtain ⟨m, hm, hpair⟩ := List.mem_map.mp hmem
  obtain ⟨hvia, hsub⟩ := Prod.mk.inj hpair
  rcases h Sample.primitives 1000 [Sample.operator] [] q hrun m hm with hinvited | hchecked
  · rw [hinvited] at hvia
    cases hvia
  · rw [hpasswords, hsub] at hchecked
    exact absurd hchecked (by decide)

end YantraRgs.Portal
