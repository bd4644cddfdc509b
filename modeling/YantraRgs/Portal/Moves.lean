import YantraRgs.Db.Kept
import YantraRgs.Portal.AdminAuth

/-! # What a step of the portals may do

Every token that is handed out goes back to an invitation, to a password with whatever second factor
there is, or to a device that answered a challenge; a challenge is made after a password was checked and
answered once; and a device was enrolled in a session of its user.

* **`Traced`** — all of this.
* **`Grows`** — what no step takes back.
* **`Move`** — what one step of a call may do, with what was checked before.
* **`Move.sound`** — it keeps the invariant. -/

namespace YantraRgs.Portal

open Await Table

variable {env : Env} {w w' : World} {i j : Nat}

/-! ## What is to be shown -/

/-- The challenge that a token was handed out for. -/
def PortalToken.challengeId (m : PortalToken) : Option Nat :=
  match m.via with
  | .webauthn _ challengeId _ => some challengeId
  | _ => none

/-- A call passed the check of a session of a user. -/
def Session (w : World) (call userId : Nat) : Prop :=
  ∃ time forged, Check.session call userId time forged ∈ w.checks

/-- **What a check that was passed says.** A token that was handed out is one of the user, and has not
ended. -/
def Meant (env : Env) (w : World) : Check → Prop
  | .password _ userId => ∃ user password, w.users[userId]? = some user ∧
      env.bcryptCompare password user.passwordHash = true
  | .session _ userId time false => ∃ m ∈ w.tokens, m.claims.sub = userId ∧
      m.claims.iat ≤ time / 1000 ∧ time / 1000 < m.claims.iat + TOKEN_TTL_SECONDS
  | _ => True

/-- **Where a challenge comes from**: a session of the user whom it is for, or a call that checked the
password of the user with its address. -/
def Issued (env : Env) (w : World) (c : WebauthnChallenge) : Prop :=
  match c.kind with
  | .register => ∃ userId, c.userId = some userId ∧ Session w c.issuedBy userId
  | .authenticate => ∃ userId user, Check.password c.issuedBy userId ∈ w.checks ∧
      w.users[userId]? = some user ∧ c.email = some (env.toLowerCase user.email)

/-- **What an answer to a challenge was**: it came from a device before the challenge had ended, and was
verified with what the table has of the two. -/
def Answered (env : Env) (w : World) : Use → Prop
  | .enrolment call challengeId credential response => ∃ c cred info,
      w.challenges[challengeId]? = some c ∧ c.kind = .register ∧
      w.credentials[credential]? = some cred ∧ c.userId = some cred.userId ∧ cred.enrolledBy = call ∧
      env.verifyRegistrationResponse response (expected env c) = .ok (some info) ∧
      info.id = cred.credentialId ∧ info.publicKey = cred.publicKey
  | .login _ challengeId credential response counter newCounter time => ∃ c cred,
      w.challenges[challengeId]? = some c ∧ c.kind = .authenticate ∧ time ≤ c.expiresAt ∧
      w.credentials[credential]? = some cred ∧ cred.credentialId = response.id ∧
      env.verifyAuthenticationResponse response (expected env c)
        ⟨cred.credentialId, cred.publicKey, counter, cred.transports⟩ = .ok (some newCounter)

/-- **How a user came to a token.** -/
def Earned (w : World) (m : PortalToken) : Prop :=
  match m.via with
  | .invitation => True
  | .password call => Check.password call m.claims.sub ∈ w.checks ∧
      (Check.noSecondFactor call m.claims.sub ∈ w.checks ∨
        Check.secondFactor call m.claims.sub ∈ w.checks)
  | .webauthn call challengeId credential => ∃ response counter newCounter time cred,
      Use.login call challengeId credential response counter newCounter time ∈ w.uses ∧
      w.credentials[credential]? = some cred ∧ cred.userId = m.claims.sub

/-- **Sessions are traced**: challenges come from sessions and passwords and are answered once, with one
token for an answer; tokens are earned; and devices are enrolled and deleted in sessions of their
users. -/
structure Traced (env : Env) (w : World) : Prop where
  meant : ∀ check ∈ w.checks, Meant env w check
  issued : ∀ (n : Nat) (c : WebauthnChallenge), w.challenges[n]? = some c → Issued env w c
  once : (w.uses.map Use.challengeId).Nodup
  answered : ∀ use ∈ w.uses, Answered env w use
  earned : ∀ m ∈ w.tokens, Earned w m
  single : (w.tokens.filterMap PortalToken.challengeId).Nodup
  devices : ∀ (n : Nat) (c : WebauthnCredential), w.credentials[n]? = some c →
    Session w c.enrolledBy c.userId ∧ ∀ call ∈ c.deletedBy, Session w call c.userId

/-! ## What only grows -/

/-- What never changes of a user. -/
def OperatorUser.person (u : OperatorUser) : OperatorId × Text × Text :=
  (u.operatorId, u.email, u.passwordHash)

/-- What never changes of a device. -/
def WebauthnCredential.fixed (c : WebauthnCredential) : WebauthnCredential :=
  { c with counter := 0, lastUsedAt := none, deletedBy := none }

/-- What never changes of a challenge. -/
def WebauthnChallenge.fixed (c : WebauthnChallenge) : WebauthnChallenge := { c with deleted := false }

/-- A device, later on. -/
def WebauthnCredential.Later (c c' : WebauthnCredential) : Prop := c'.fixed = c.fixed

/-- A challenge, later on. -/
def WebauthnChallenge.Later (c c' : WebauthnChallenge) : Prop :=
  c'.fixed = c.fixed ∧ (c.deleted = true → c'.deleted = true)

/-- A user, later on. -/
def OperatorUser.Later (u u' : OperatorUser) : Prop := u'.person = u.person

/-- **What a step may do**: rows stay, and so does what was checked, answered and handed out. -/
structure Grows (w w' : World) : Prop where
  users : Kept OperatorUser.Later w.users w'.users
  credentials : Kept WebauthnCredential.Later w.credentials w'.credentials
  challenges : Kept WebauthnChallenge.Later w.challenges w'.challenges
  checks : ∀ x ∈ w.checks, x ∈ w'.checks
  uses : ∀ x ∈ w.uses, x ∈ w'.uses
  tokens : ∀ x ∈ w.tokens, x ∈ w'.tokens
  now : w.now ≤ w'.now

theorem WebauthnChallenge.Later.refl (c : WebauthnChallenge) : c.Later c := ⟨rfl, id⟩

theorem WebauthnChallenge.Later.trans {a b c : WebauthnChallenge} (h : a.Later b) (h' : b.Later c) :
    a.Later c := ⟨h'.1.trans h.1, h'.2 ∘ h.2⟩

theorem OperatorUser.Later.refl (u : OperatorUser) : u.Later u := rfl

theorem WebauthnCredential.Later.refl (c : WebauthnCredential) : c.Later c := rfl

theorem Grows.refl (w : World) : Grows w w :=
  ⟨.refl .refl _, .refl .refl _, .refl .refl _, fun _ h => h, fun _ h => h, fun _ h => h, Nat.le_refl _⟩

theorem Grows.trans {w'' : World} (h : Grows w w') (h' : Grows w' w'') : Grows w w'' :=
  ⟨h.users.trans (fun h h' => Eq.trans h' h) h'.users,
    h.credentials.trans (fun h h' => Eq.trans h' h) h'.credentials,
    h.challenges.trans .trans h'.challenges, fun x hx => h'.checks x (h.checks x hx),
    fun x hx => h'.uses x (h.uses x hx), fun x hx => h'.tokens x (h.tokens x hx),
    Nat.le_trans h.now h'.now⟩

/-! ## What was so stays so -/

theorem Session.of_grows {call userId : Nat} (h : Session w call userId) (hgrows : Grows w w') :
    Session w' call userId := by
  obtain ⟨time, forged, hcheck⟩ := h
  exact ⟨time, forged, hgrows.checks _ hcheck⟩

theorem Meant.of_grows {check : Check} (h : Meant env w check) (hgrows : Grows w w') :
    Meant env w' check := by
  match check, h with
  | .password _ userId, ⟨user, password, huser, hok⟩ =>
      obtain ⟨user', huser', hsame⟩ := hgrows.users userId user huser
      have hhash : user'.passwordHash = user.passwordHash := congrArg (fun x => x.2.2) hsame
      exact ⟨user', password, huser', hhash ▸ hok⟩
  | .session _ userId time false, ⟨m, hm, hclaims⟩ => exact ⟨m, hgrows.tokens m hm, hclaims⟩
  | .session _ _ _ true, _ => trivial
  | .noSecondFactor _ _, _ => trivial
  | .secondFactor _ _, _ => trivial

theorem Issued.of_grows {c : WebauthnChallenge} (h : Issued env w c) (hgrows : Grows w w') :
    Issued env w' c := by
  unfold Issued at h ⊢
  split at h
  · obtain ⟨userId, huser, hsession⟩ := h
    exact ⟨userId, huser, hsession.of_grows hgrows⟩
  · obtain ⟨userId, user, hcheck, huser, hemail⟩ := h
    obtain ⟨user', huser', hsame⟩ := hgrows.users userId user huser
    have hsameEmail : user'.email = user.email := congrArg (fun x => x.2.1) hsame
    exact ⟨userId, user', hgrows.checks _ hcheck, huser', hsameEmail ▸ hemail⟩

/-- Where a challenge comes from does not depend on whether it was deleted. -/
theorem Issued.later {c c' : WebauthnChallenge} (h : Issued env w c) (hlater : c.Later c') :
    Issued env w c' := by
  have hfixed : Issued env w c.fixed := h
  rw [← hlater.1] at hfixed
  exact hfixed

/-- What is expected of an answer does not depend on whether the challenge was deleted. -/
theorem WebauthnChallenge.Later.expected {c c' : WebauthnChallenge} (h : c.Later c') :
    expected env c' = Portal.expected env c := by
  have hfixed : Portal.expected env c'.fixed = Portal.expected env c.fixed :=
    congrArg (Portal.expected env) h.1
  exact hfixed

theorem Answered.of_grows {use : Use} (h : Answered env w use) (hgrows : Grows w w') :
    Answered env w' use := by
  match use, h with
  | .enrolment call challengeId credential response,
      ⟨c, cred, info, hc, hkind, hcred, huser, hcall, hok, hid, hkey⟩ =>
    obtain ⟨c', hc', hlater⟩ := hgrows.challenges challengeId c hc
    obtain ⟨cred', hcred', hsame⟩ := hgrows.credentials credential cred hcred
    obtain ⟨huser', -, -, hkind', -, -⟩ := WebauthnChallenge.mk.inj hlater.1
    obtain ⟨hcredUser, hcredId, hcredKey, -, -, -, -, -, -, hcredCall, -⟩ :=
      WebauthnCredential.mk.inj hsame
    refine ⟨c', cred', info, hc', hkind'.trans hkind, hcred', ?_, hcredCall.trans hcall, ?_,
      hid.trans hcredId.symm, hkey.trans hcredKey.symm⟩
    · rw [huser', huser, hcredUser]
    · rw [hlater.expected, hok]
  | .login _ challengeId credential response counter newCounter time,
      ⟨c, cred, hc, hkind, htime, hcred, hid, hok⟩ =>
    obtain ⟨c', hc', hlater⟩ := hgrows.challenges challengeId c hc
    obtain ⟨cred', hcred', hsame⟩ := hgrows.credentials credential cred hcred
    obtain ⟨-, -, -, hkind', hexpires, -⟩ := WebauthnChallenge.mk.inj hlater.1
    obtain ⟨-, hcredId, hcredKey, -, htransports, -⟩ := WebauthnCredential.mk.inj hsame
    refine ⟨c', cred', hc', hkind'.trans hkind, hexpires ▸ htime, hcred', hcredId.trans hid, ?_⟩
    rw [hlater.expected, hcredId, hcredKey, htransports, hok]

theorem Earned.of_grows {m : PortalToken} (h : Earned w m) (hgrows : Grows w w') : Earned w' m := by
  unfold Earned at h ⊢
  split at h
  · trivial
  · exact ⟨hgrows.checks _ h.1, h.2.imp (hgrows.checks _) (hgrows.checks _)⟩
  · obtain ⟨response, counter, newCounter, time, cred, huse, hcred, huser⟩ := h
    obtain ⟨cred', hcred', hsame⟩ := hgrows.credentials _ cred hcred
    exact ⟨response, counter, newCounter, time, cred', hgrows.uses _ huse, hcred',
      (congrArg WebauthnCredential.userId hsame).trans huser⟩

/-! ## What a step may do -/

/-- The call that answered a challenge. -/
def Use.call : Use → Nat
  | .enrolment call _ _ _ => call
  | .login call _ _ _ _ _ _ => call

/-- The counter with which device `n` answered. -/
def Use.counterOf (n : Nat) : Use → Option Nat
  | .login _ _ credential _ _ newCounter _ => if credential = n then some newCounter else none
  | .enrolment _ _ _ _ => none

/-- The counters with which device `n` has answered. -/
def World.counters (w : World) (n : Nat) : List Nat := w.uses.filterMap (Use.counterOf n)

/-- **What one step of call `i` may do**, with what was checked before. -/
inductive Move (env : Env) (i : Nat) (w : World) : World → Prop
  | stayed : Move env i w w
  | noted (check : Check) (hmeant : Meant env w check) : Move env i w (w.note check)
  | seen (id : Nat) (f : OperatorUser → OperatorUser) (hf : ∀ u : OperatorUser, u.Later (f u)) :
      Move env i w { w with users := w.users.modify id f }
  | asked (c : WebauthnChallenge) (hissued : Issued env w c) : Move env i w (w.addChallenge c)
  | enrolled {w' : World} {n : Nat} {row : WebauthnCredential} {response : Value} {c : WebauthnChallenge}
      {info : RegistrationInfo} (hc : w.challenges[n]? = some c) (hkind : c.kind = .register)
      (huser : c.userId = some row.userId) (hsession : Session w i row.userId)
      (hcall : row.enrolledBy = i) (hlive : row.deletedBy = none)
      (hok : env.verifyRegistrationResponse response (expected env c) = .ok (some info))
      (hid : info.id = row.credentialId) (hkey : info.publicKey = row.publicKey)
      (henrol : w.enrol i n row response = .ok w') : Move env i w w'
  | signed {w' : World} {n credential counter newCounter : Nat} {response : AuthenticationResponse}
      {time : Millis} {c : WebauthnChallenge} {cred : WebauthnCredential}
      (hc : w.challenges[n]? = some c) (hkind : c.kind = .authenticate) (htime : time ≤ c.expiresAt)
      (hcred : w.credentials[credential]? = some cred) (hid : cred.credentialId = response.id)
      (hok : env.verifyAuthenticationResponse response (expected env c)
        ⟨cred.credentialId, cred.publicKey, counter, cred.transports⟩ = .ok (some newCounter))
      (hlogin : w.login i n credential response counter newCounter time = .ok w') : Move env i w w'
  | minted (via : Via) (id : Nat) (user : OperatorUser)
      (hearned : Earned w ⟨via, user.claims id w.now⟩)
      (hanswer : ∀ n ∈ (PortalToken.mk via (user.claims id w.now)).challengeId,
        (∃ use ∈ w.uses, use.call = i ∧ use.challengeId = n) ∧
          ∀ m ∈ w.tokens, m.challengeId ≠ some n) :
      Move env i w (signPortalToken env via id user w).2
  | removed (n : Nat) (c : WebauthnCredential) (hc : w.credentials[n]? = some c)
      (hsession : Session w i c.userId) :
      Move env i w { w with
        credentials := w.credentials.modify n fun c => { c with deletedBy := some i } }
  | swept (f : WebauthnChallenge → WebauthnChallenge) (hf : ∀ c : WebauthnChallenge, c.Later (f c)) :
      Move env i w { w with challenges := w.challenges.map f }
  | joined (user : OperatorUser) : Move env i w { w with users := w.users ++ [user] }
  | elsewhere (now : Millis) (operators : List Operator) (hnow : w.now ≤ now) :
      Move env i w { w with now, operators }

/-- A challenge in the table. -/
theorem challenge_eq_some {n : Nat} {c : WebauthnChallenge} :
    w.challenge n = some c ↔ w.challenges[n]? = some c ∧ c.deleted = false := by
  rw [World.challenge, Option.filter_eq_some_iff, Bool.not_eq_true']

/-- A device in the table. -/
theorem credential_eq_some {n : Nat} {c : WebauthnCredential} :
    w.credential n = some c ↔ w.credentials[n]? = some c ∧ c.deletedBy = none := by
  rw [World.credential, Option.filter_eq_some_iff, decide_eq_true_iff]

/-- The device with a name of its own. -/
theorem credentialNamed_eq_some {name : Text} {n : Nat} {c : WebauthnCredential}
    (h : w.credentialNamed name = some (n, c)) :
    w.credentials[n]? = some c ∧ c.credentialId = name := by
  obtain ⟨hc, hfound⟩ := found_eq_some h
  exact ⟨hc, (of_decide_eq_true hfound).2⟩

/-- The user with an address. -/
theorem userOfEmail_eq_some {email : Text} {n : Nat} {u : OperatorUser}
    (h : w.userOfEmail email = some (n, u)) : w.users[n]? = some u ∧ u.email = email := by
  obtain ⟨hu, hfound⟩ := found_eq_some h
  exact ⟨hu, of_decide_eq_true hfound⟩

/-- **The transaction of an enrolment** finds its challenge. -/
theorem enrol_eq_ok {n : Nat} {row : WebauthnCredential} {response : Value}
    (h : w.enrol i n row response = .ok w') :
    (∃ c, w.challenge n = some c) ∧ w' = { w.deleteChallenge n with
      credentials := w.credentials ++ [row]
      uses := w.uses ++ [.enrolment i n w.credentials.length response] } := by
  unfold World.enrol at h
  split at h
  · cases h
  split at h
  · cases h
  rename_i hsome
  rw [Option.isNone_iff_eq_none] at hsome
  exact ⟨Option.ne_none_iff_exists'.mp hsome, (Except.ok.inj h).symm⟩

/-- **The transaction of a signature** finds its challenge. -/
theorem login_eq_ok {n credential counter newCounter : Nat} {response : AuthenticationResponse}
    {time : Millis} (h : w.login i n credential response counter newCounter time = .ok w') :
    (∃ c, w.challenge n = some c) ∧ w' = { w.deleteChallenge n with
      credentials := w.credentials.modify credential fun c =>
        { c with counter := newCounter, lastUsedAt := some w.now }
      uses := w.uses ++ [.login i n credential response counter newCounter time] } := by
  unfold World.login at h
  split at h
  · cases h
  split at h
  · cases h
  rename_i hsome
  rw [Option.isNone_iff_eq_none] at hsome
  exact ⟨Option.ne_none_iff_exists'.mp hsome, (Except.ok.inj h).symm⟩

theorem kept_modify_credential {f : WebauthnCredential → WebauthnCredential}
    (hf : ∀ c : WebauthnCredential, c.Later (f c)) (cs : List WebauthnCredential) (n : Nat) :
    Kept WebauthnCredential.Later cs (cs.modify n f) := .modify .refl hf cs n

theorem kept_deleteChallenge (w : World) (n : Nat) :
    Kept WebauthnChallenge.Later w.challenges (w.deleteChallenge n).challenges :=
  .modify .refl (fun _ => ⟨rfl, fun _ => rfl⟩) _ _

/-- **What a step may do only adds.** -/
theorem Move.grows (h : Move env i w w') : Grows w w' := by
  have hconcat : ∀ {α : Type} (l : List α) (y x : α), x ∈ l → x ∈ l ++ [y] :=
    fun l y x hx => List.mem_append_left _ hx
  cases h with
  | stayed => exact .refl w
  | noted check hmeant => exact { Grows.refl w with checks := hconcat _ _ }
  | seen id f hf => exact { Grows.refl w with users := .modify .refl hf _ _ }
  | asked c hissued => exact { Grows.refl w with challenges := .concat .refl _ _ }
  | enrolled hc hkind huser hsession hcall hlive hok hid hkey henrol =>
      obtain ⟨-, rfl⟩ := enrol_eq_ok henrol
      exact { Grows.refl w with
        challenges := kept_deleteChallenge w _
        credentials := .concat .refl _ _
        uses := hconcat _ _ }
  | signed hc hkind htime hcred hid hok hlogin =>
      obtain ⟨-, rfl⟩ := login_eq_ok hlogin
      exact { Grows.refl w with
        challenges := kept_deleteChallenge w _
        credentials := kept_modify_credential (fun _ => by rfl) _ _
        uses := hconcat _ _ }
  | minted via id user hearned hanswer => exact { Grows.refl w with tokens := hconcat _ _ }
  | removed n c hc hsession =>
      exact { Grows.refl w with credentials := kept_modify_credential (fun _ => by rfl) _ _ }
  | swept f hf => exact { Grows.refl w with challenges := .map hf _ }
  | joined user => exact { Grows.refl w with users := .concat .refl _ _ }
  | elsewhere now operators hnow => exact { Grows.refl w with now := hnow }

/-! ## The invariant -/

/-- **The invariant**: sessions are traced, a challenge that was answered is deleted, tokens are of the
past, and a device has the counter of its last answer. -/
structure Sound (env : Env) (w : World) : Prop where
  traced : Traced env w
  used : ∀ use ∈ w.uses, ∃ c, w.challenges[use.challengeId]? = some c ∧ c.deleted = true
  past : ∀ m ∈ w.tokens, m.claims.iat ≤ w.now / 1000 ∧
    m.claims.exp = m.claims.iat + TOKEN_TTL_SECONDS
  counters : ∀ (n : Nat) (c : WebauthnCredential), w.credentials[n]? = some c →
    ∀ last ∈ (w.counters n).getLast?, c.counter = last

/-- A token for an answer is one for an answer that was given. -/
theorem Earned.answer {m : PortalToken} (h : Earned w m) {n : Nat} (hn : m.challengeId = some n) :
    ∃ use ∈ w.uses, use.challengeId = n := by
  unfold Earned at h
  unfold PortalToken.challengeId at hn
  split at h
  case h_3 call challengeId credential hvia =>
    rw [hvia] at hn
    obtain ⟨response, counter, newCounter, time, cred, huse, -⟩ := h
    exact ⟨_, huse, Option.some.inj hn⟩
  all_goals
    rename_i hvia
    rw [hvia] at hn
    cases hn

/-- A challenge that was not answered is answered by no earlier call. -/
theorem Sound.fresh (h : Sound env w) {n : Nat} {c : WebauthnChallenge} (hc : w.challenge n = some c) :
    ∀ use ∈ w.uses, use.challengeId ≠ n := by
  rintro use huse rfl
  obtain ⟨c', hc', hdeleted⟩ := h.used use huse
  obtain ⟨hsome, hlive⟩ := challenge_eq_some.mp hc
  obtain rfl := Option.some.inj (hsome.symm.trans hc')
  rw [hlive] at hdeleted
  cases hdeleted

/-- Where a challenge in a table comes from that has kept its rows. -/
theorem issued_of_kept (h : Sound env w) (hgrows : Grows w w')
    (hrows : w'.challenges.length = w.challenges.length) (n : Nat) (c' : WebauthnChallenge)
    (hc' : w'.challenges[n]? = some c') : Issued env w' c' := by
  have hlt : n < w.challenges.length := hrows ▸ (List.getElem?_eq_some_iff.mp hc').1
  obtain ⟨c'', hc'', hlater⟩ := hgrows.challenges n _ (List.getElem?_eq_getElem hlt)
  obtain rfl := Option.some.inj (hc'.symm.trans hc'')
  have hissued := h.traced.issued n _ (List.getElem?_eq_getElem hlt)
  exact (hissued.later hlater).of_grows hgrows

/-- **What holds of a device**: it was enrolled, and perhaps deleted, in a session of its user, and it has
the counter of its last answer. -/
def Device (w : World) (n : Nat) (c : WebauthnCredential) : Prop :=
  (Session w c.enrolledBy c.userId ∧ ∀ call ∈ c.deletedBy, Session w call c.userId) ∧
    ∀ last ∈ (w.counters n).getLast?, c.counter = last

theorem Sound.owned (h : Sound env w) (hgrows : Grows w w') {n : Nat} {c : WebauthnCredential}
    (hc : w.credentials[n]? = some c) :
    Session w' c.enrolledBy c.userId ∧ ∀ call ∈ c.deletedBy, Session w' call c.userId := by
  obtain ⟨henrolled, hdeleted⟩ := h.traced.devices n c hc
  exact ⟨henrolled.of_grows hgrows, fun call hcall => (hdeleted call hcall).of_grows hgrows⟩

/-- A device of which nothing has changed. -/
theorem Sound.device (h : Sound env w) (hgrows : Grows w w') {n : Nat} {c : WebauthnCredential}
    (hc : w.credentials[n]? = some c) (hcounters : w'.counters n = w.counters n) : Device w' n c := by
  refine ⟨h.owned hgrows hc, ?_⟩
  rw [hcounters]
  exact h.counters n c hc

/-- **A step keeps the invariant** as soon as it only adds, and what it adds is as it should be. -/
theorem Sound.of_grows (h : Sound env w) (hgrows : Grows w w')
    (hchecks : ∀ check ∈ w'.checks, check ∈ w.checks ∨ Meant env w check)
    (hissued : ∀ (n : Nat) (c : WebauthnChallenge), w'.challenges[n]? = some c → Issued env w' c)
    (huses : ∀ use ∈ w'.uses, use ∈ w.uses ∨ (Answered env w' use ∧
      ∃ c, w'.challenges[use.challengeId]? = some c ∧ c.deleted = true))
    (honce : (w'.uses.map Use.challengeId).Nodup)
    (htokens : ∀ m ∈ w'.tokens, m ∈ w.tokens ∨ (Earned w m ∧ m.claims.iat = w.now / 1000 ∧
      m.claims.exp = m.claims.iat + TOKEN_TTL_SECONDS))
    (hsingle : (w'.tokens.filterMap PortalToken.challengeId).Nodup)
    (hdevices : ∀ (n : Nat) (c : WebauthnCredential), w'.credentials[n]? = some c → Device w' n c) :
    Sound env w' := by
  have hnow : w.now / 1000 ≤ w'.now / 1000 := Nat.div_le_div_right hgrows.now
  refine ⟨⟨fun check hcheck => ?_, hissued, honce, fun use huse => ?_, fun m hm => ?_, hsingle,
    fun n c hc => (hdevices n c hc).1⟩, fun use huse => ?_, fun m hm => ?_,
    fun n c hc => (hdevices n c hc).2⟩
  · rcases hchecks check hcheck with hold | hmeant
    · exact (h.traced.meant check hold).of_grows hgrows
    · exact hmeant.of_grows hgrows
  · rcases huses use huse with hold | ⟨hanswered, -⟩
    · exact (h.traced.answered use hold).of_grows hgrows
    · exact hanswered
  · rcases htokens m hm with hold | ⟨hearned, -⟩
    · exact (h.traced.earned m hold).of_grows hgrows
    · exact hearned.of_grows hgrows
  · rcases huses use huse with hold | ⟨-, hused⟩
    · obtain ⟨c, hc, hdeleted⟩ := h.used use hold
      obtain ⟨c', hc', hlater⟩ := hgrows.challenges _ c hc
      exact ⟨c', hc', hlater.2 hdeleted⟩
    · exact hused
  · rcases htokens m hm with hold | ⟨-, hiat, hexp⟩
    · obtain ⟨hiat, hexp⟩ := h.past m hold
      exact ⟨Nat.le_trans hiat hnow, hexp⟩
    · exact ⟨hiat ▸ hnow, hexp⟩

/-- A challenge that is answered now, in the table from which it is deleted. -/
theorem deleted_of_challenge {n : Nat} {c : WebauthnChallenge} (hc : w.challenges[n]? = some c) :
    (w.deleteChallenge n).challenges[n]? = some { c with deleted := true } := by
  rw [World.deleteChallenge, List.getElem?_modify_eq, hc]
  rfl

/-- **An enrolment keeps the invariant.** -/
theorem Sound.enrolled (h : Sound env w) {n : Nat} {row : WebauthnCredential} {response : Value}
    (hlive : ∃ c, w.challenge n = some c) (hsession : Session w row.enrolledBy row.userId)
    (hrow : row.deletedBy = none)
    (hanswered : ∀ w', Grows w w' → w'.credentials[w.credentials.length]? = some row →
      Answered env w' (.enrolment i n w.credentials.length response))
    (hw' : w' = { w.deleteChallenge n with
      credentials := w.credentials ++ [row]
      uses := w.uses ++ [.enrolment i n w.credentials.length response] })
    (hgrows : Grows w w') : Sound env w' := by
  obtain ⟨c, hc⟩ := hlive
  subst hw'
  have hfresh := h.fresh hc
  refine h.of_grows hgrows (fun _ hx => .inl hx) ?_ (fun use huse => ?_) ?_ (fun _ hx => .inl hx)
    h.traced.single fun m cred hcred => ?_
  · exact issued_of_kept h hgrows (List.length_modify _ _ _)
  · rcases List.mem_append.mp huse with huse | huse
    · exact .inl huse
    · obtain rfl := List.mem_singleton.mp huse
      have hdeleted := deleted_of_challenge (challenge_eq_some.mp hc).1
      exact .inr ⟨hanswered _ hgrows (getElem?_concat_length _ _), _, hdeleted, rfl⟩
  · exact nodup_map_concat h.traced.once hfresh
  · have hcounters : ∀ m, World.counters { w.deleteChallenge n with
        credentials := w.credentials ++ [row]
        uses := w.uses ++ [.enrolment i n w.credentials.length response] } m = w.counters m := by
      intro m
      rw [World.counters, List.filterMap_append]
      exact List.append_nil _
    rcases getElem?_concat_cases hcred with hold | ⟨rfl, rfl⟩
    · exact h.device hgrows hold (hcounters m)
    · -- the new device has not answered yet
      refine ⟨⟨hsession.of_grows hgrows, fun call hcall => ?_⟩, fun last hlast => ?_⟩
      · rw [hrow] at hcall
        cases hcall
      · rw [hcounters] at hlast
        obtain ⟨use, huse, hlast⟩ := List.mem_filterMap.mp (List.mem_of_getLast? hlast)
        cases use with
        | enrolment call challengeId credential response => cases hlast
        | login call challengeId credential response counter newCounter time =>
            obtain ⟨-, cred, -, -, -, hcred, -⟩ := h.traced.answered _ huse
            rw [Use.counterOf] at hlast
            split at hlast
            · rename_i heq
              rw [heq, List.getElem?_eq_none (Nat.le_refl _)] at hcred
              cases hcred
            · cases hlast

/-- **A signature keeps the invariant.** -/
theorem Sound.signed (h : Sound env w) {n credential counter newCounter : Nat}
    {response : AuthenticationResponse} {time : Millis} (hlive : ∃ c, w.challenge n = some c)
    (hanswered : Answered env w (.login i n credential response counter newCounter time))
    (hw' : w' = { w.deleteChallenge n with
      credentials := w.credentials.modify credential fun c =>
        { c with counter := newCounter, lastUsedAt := some w.now }
      uses := w.uses ++ [.login i n credential response counter newCounter time] })
    (hgrows : Grows w w') : Sound env w' := by
  obtain ⟨c, hc⟩ := hlive
  subst hw'
  have hfresh := h.fresh hc
  refine h.of_grows hgrows (fun _ hx => .inl hx) ?_ (fun use huse => ?_) ?_ (fun _ hx => .inl hx)
    h.traced.single fun m cred' hcred' => ?_
  · exact issued_of_kept h hgrows (List.length_modify _ _ _)
  · rcases List.mem_append.mp huse with huse | huse
    · exact .inl huse
    · obtain rfl := List.mem_singleton.mp huse
      have hdeleted := deleted_of_challenge (challenge_eq_some.mp hc).1
      exact .inr ⟨hanswered.of_grows hgrows, _, hdeleted, rfl⟩
  · exact nodup_map_concat h.traced.once hfresh
  · have hcounters : ∀ m, World.counters { w.deleteChallenge n with
        credentials := w.credentials.modify credential fun c =>
          { c with counter := newCounter, lastUsedAt := some w.now }
        uses := w.uses ++ [.login i n credential response counter newCounter time] } m =
        w.counters m ++ if credential = m then [newCounter] else [] := by
      intro m
      rw [World.counters, List.filterMap_append]
      refine congrArg (w.counters m ++ ·) ?_
      by_cases hm : credential = m
      · rw [if_pos hm]
        exact List.filterMap_cons_some (if_pos hm)
      · rw [if_neg hm]
        exact List.filterMap_cons_none (if_neg hm)
    obtain ⟨cred, hcred, ⟨rfl, rfl⟩ | ⟨hne, rfl⟩⟩ := getElem?_modify_cases hcred'
    · -- the device that signed has the counter of its signature
      have howned := h.owned hgrows hcred
      refine ⟨howned, fun last hlast => ?_⟩
      rw [hcounters, if_pos rfl, List.getLast?_concat] at hlast
      exact Option.some.inj hlast
    · refine h.device hgrows hcred ?_
      rw [hcounters, if_neg (Ne.symm hne), List.append_nil]

/-- **What a step may do keeps the invariant.** -/
theorem Move.sound (h : Sound env w) (hmove : Move env i w w') : Sound env w' := by
  have hgrows := hmove.grows
  cases hmove with
  | stayed => exact h
  | noted check hmeant =>
      refine h.of_grows hgrows (fun x hx => ?_) ?_ (fun _ hx => .inl hx) h.traced.once
        (fun _ hx => .inl hx) h.traced.single fun n c hc => h.device hgrows hc rfl
      · rcases List.mem_append.mp hx with hx | hx
        · exact .inl hx
        · exact .inr (List.mem_singleton.mp hx ▸ hmeant)
      · exact issued_of_kept h hgrows rfl
  | seen id f hf =>
      exact h.of_grows hgrows (fun _ hx => .inl hx) (issued_of_kept h hgrows rfl) (fun _ hx => .inl hx)
        h.traced.once (fun _ hx => .inl hx) h.traced.single fun n c hc => h.device hgrows hc rfl
  | asked c hissued =>
      refine h.of_grows hgrows (fun _ hx => .inl hx) (fun n c' hc' => ?_) (fun _ hx => .inl hx)
        h.traced.once (fun _ hx => .inl hx) h.traced.single fun n c hc => h.device hgrows hc rfl
      rcases getElem?_concat_cases hc' with hc' | ⟨-, rfl⟩
      · exact (h.traced.issued n c' hc').of_grows hgrows
      · exact hissued.of_grows hgrows
  | @enrolled _ n row response c info hc hkind huser hsession hcall hlive hok hid hkey henrol =>
      obtain ⟨hlive', hw'⟩ := enrol_eq_ok henrol
      refine h.enrolled hlive' (hcall ▸ hsession) hlive (fun w'' hgrows'' hrow => ?_) hw' hgrows
      obtain ⟨c', hc', hlater⟩ := hgrows''.challenges n c hc
      obtain ⟨huser', -, -, hkind', -, -⟩ := WebauthnChallenge.mk.inj hlater.1
      exact ⟨c', row, info, hc', hkind'.trans hkind, hrow, huser'.trans huser, hcall,
        hlater.expected ▸ hok, hid, hkey⟩
  | signed hc hkind htime hcred hid hok hlogin =>
      obtain ⟨hlive, hw'⟩ := login_eq_ok hlogin
      exact h.signed hlive ⟨_, _, hc, hkind, htime, hcred, hid, hok⟩ hw' hgrows
  | minted via id user hearned hanswer =>
      refine h.of_grows hgrows (fun _ hx => .inl hx) (issued_of_kept h hgrows rfl)
        (fun _ hx => .inl hx) h.traced.once (fun m hm => ?_) ?_ fun n c hc => h.device hgrows hc rfl
      · rcases List.mem_append.mp hm with hm | hm
        · exact .inl hm
        · obtain rfl := List.mem_singleton.mp hm
          exact .inr ⟨hearned, rfl, rfl⟩
      · -- no token was handed out for the answer before
        have happend : (signPortalToken env via id user w).2.tokens.filterMap PortalToken.challengeId =
            w.tokens.filterMap PortalToken.challengeId ++
              [PortalToken.mk via (user.claims id w.now)].filterMap PortalToken.challengeId :=
          List.filterMap_append
        rw [happend]
        cases hn : PortalToken.challengeId ⟨via, user.claims id w.now⟩ with
        | none =>
            rw [List.filterMap_cons_none hn, List.filterMap_nil, List.append_nil]
            exact h.traced.single
        | some n =>
            rw [List.filterMap_cons_some hn, List.filterMap_nil]
            refine List.nodup_append.mpr ⟨h.traced.single, List.nodup_singleton n, fun a ha b hb => ?_⟩
            obtain rfl := List.mem_singleton.mp hb
            obtain ⟨m, hm, hmn⟩ := List.mem_filterMap.mp ha
            rintro rfl
            exact (hanswer a hn).2 m hm hmn
  | removed n c hc hsession =>
      refine h.of_grows hgrows (fun _ hx => .inl hx) (issued_of_kept h hgrows rfl)
        (fun _ hx => .inl hx) h.traced.once (fun _ hx => .inl hx) h.traced.single fun m c' hc' => ?_
      obtain ⟨cred, hcred, ⟨rfl, rfl⟩ | ⟨-, rfl⟩⟩ := getElem?_modify_cases hc'
      · obtain rfl := Option.some.inj (hc.symm.trans hcred)
        refine ⟨⟨(h.owned hgrows hc).1, fun call hcall => ?_⟩, h.counters m c hc⟩
        obtain rfl := Option.some.inj hcall
        exact hsession.of_grows hgrows
      · exact h.device hgrows hcred rfl
  | swept f hf =>
      exact h.of_grows hgrows (fun _ hx => .inl hx) (issued_of_kept h hgrows (List.length_map _))
        (fun _ hx => .inl hx) h.traced.once (fun _ hx => .inl hx) h.traced.single
        fun n c hc => h.device hgrows hc rfl
  | joined user =>
      exact h.of_grows hgrows (fun _ hx => .inl hx) (issued_of_kept h hgrows rfl) (fun _ hx => .inl hx)
        h.traced.once (fun _ hx => .inl hx) h.traced.single fun n c hc => h.device hgrows hc rfl
  | elsewhere now operators hnow =>
      exact h.of_grows hgrows (fun _ hx => .inl hx) (issued_of_kept h hgrows rfl) (fun _ hx => .inl hx)
        h.traced.once (fun _ hx => .inl hx) h.traced.single fun n c hc => h.device hgrows hc rfl

end YantraRgs.Portal
