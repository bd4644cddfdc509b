import YantraRgs.Await.RelyGuarantee
import YantraRgs.Services.JobLocks

/-! # One wallet call of a job at a time

While the time of its lock has not run out, a runner is alone with its job. The routes of the
administrators do not look at the lock: putting a job back into the queue unlocks it while a runner
works on it, so that a second one may join, and cancelling it does not stop a runner that has read it
already.

* **`Exclusive`** — the property of one step.
* **`InTime`** — what is assumed of the runners: no crash, and no attempt outlives its lock.
* **`AdminsWait`** — the condition on one step.
* **`Sound`** — the invariant: who works on an open job holds its lock.
* **`calls_exclusive`** — the property along every run that meets the condition. -/

namespace YantraRgs.JobLocks

open Await

variable {p q : State} {w w' : World} {i m m' n : Nat} {a a' : Attempt} {j j' : PendingWalletJob}

/-- Whether an attempt is past its reading of the job, and not over. -/
def Phase.past (phase : Phase) : Prop := phase ≠ .locked ∧ phase ≠ .done

theorem Phase.past_taken : Phase.past .taken := ⟨by decide, by decide⟩

theorem Phase.past_calling : Phase.past .calling := ⟨by decide, by decide⟩

theorem Phase.past_called : Phase.past .called := ⟨by decide, by decide⟩

/-- **One call at a time**: at most one wallet call of a job is in flight, and none is started for a
job that is completed or cancelled. -/
structure Exclusive (p : State) (_ : Happening) (q : State) : Prop where
  one : ∀ (m m' : Nat) (a a' : Attempt), q.world.attempts[m]? = some a →
    q.world.attempts[m']? = some a' → a.jobId = a'.jobId → a.phase = .calling →
      a'.phase = .calling → m = m'
  started : ∀ (m : Nat) (a : Attempt), q.world.attempts[m]? = some a → a.phase = .calling →
    p.world.attempts[m]? = some a ∨
      ∃ j, p.world.jobs[a.jobId]? = some j ∧ j.completedAt = none

/-- **What is assumed of the runners**: no call is cut off, and no attempt outlives its lock. -/
structure InTime (e : Happening) (q : State) : Prop where
  goesOn : ∀ i, e ≠ .kill i
  inTime : ∀ a ∈ q.world.attempts, a.phase ≠ .done → q.world.now ≤ a.deadline

instance (e : Happening) : Decidable (∀ i, e ≠ .kill i) :=
  match e with
  | .kill i => .isFalse fun h => h i rfl
  | .call _ => .isTrue fun _ h => nomatch h
  | .run _ _ => .isTrue fun _ h => nomatch h
  | .env _ => .isTrue fun _ h => nomatch h

instance (e : Happening) (q : State) : Decidable (InTime e q) :=
  decidable_of_iff ((∀ i, e ≠ .kill i) ∧
    ∀ a ∈ q.world.attempts, a.phase ≠ .done → q.world.now ≤ a.deadline)
    ⟨fun h => ⟨h.1, h.2⟩, fun h => ⟨h.1, h.2⟩⟩

/-- What a call of an administrator waits for before it changes a job. -/
def Call.Waits (k : Call) (w w' : World) : Prop :=
  match k with
  | .retry _ n => w'.jobs ≠ w.jobs → ∀ a ∈ w.attempts, a.jobId = n → a.phase = .done
  | .cancel _ n _ => w'.jobs ≠ w.jobs → ∀ a ∈ w.attempts, a.jobId = n → a.phase ≠ .taken
  | .tick => True

instance (k : Call) (w w' : World) : Decidable (k.Waits w w') := by
  unfold Call.Waits
  split <;> infer_instance

/-- **The condition on one step**: a job is put back into the queue only when no attempt at it is
under way, and it is cancelled only when no attempt has read it without calling the wallet yet. -/
def AdminsWait (p : State) (e : Happening) (q : State) : Prop :=
  match e with
  | .run i _ => ∀ k ∈ p.calls[i]?, k.Waits p.world q.world
  | _ => True

instance (p : State) (e : Happening) (q : State) : Decidable (AdminsWait p e q) := by
  unfold AdminsWait
  split <;> infer_instance

/-- The runs that the property is about: in time, with administrators that wait. -/
def Orderly (p : State) (e : Happening) (q : State) : Prop := InTime e q ∧ AdminsWait p e q

instance (p : State) (e : Happening) (q : State) : Decidable (Orderly p e q) :=
  inferInstanceAs (Decidable (InTime e q ∧ AdminsWait p e q))

/-! ## The invariant -/

/-- **The invariant**: an attempt that is under way is in time; if its job is open, its lock stands,
and it is the only one; the one that is past its reading is the only one even when the job is
completed meanwhile; and the job of one that has just read it is open. -/
structure Sound (w : World) : Prop where
  placed : ∀ a ∈ w.attempts, a.jobId < w.jobs.length
  inTime : ∀ a ∈ w.attempts, a.phase ≠ .done → w.now ≤ a.deadline
  held : ∀ a ∈ w.attempts, a.phase ≠ .done → ∀ j, w.jobs[a.jobId]? = some j →
    j.completedAt = none → ∃ lock, j.lockedUntil = some lock ∧ lock.expiresAt = a.deadline
  sole : ∀ (m m' : Nat) (a a' : Attempt), w.attempts[m]? = some a → w.attempts[m']? = some a' →
    a.jobId = a'.jobId → a.phase ≠ .done → a'.phase ≠ .done →
      ∀ j, w.jobs[a.jobId]? = some j → j.completedAt = none → m = m'
  past : ∀ (m m' : Nat) (a a' : Attempt), w.attempts[m]? = some a → w.attempts[m']? = some a' →
    a.jobId = a'.jobId → a.phase.past → a'.phase.past → m = m'
  opened : ∀ a ∈ w.attempts, a.phase = .taken →
    ∃ j, w.jobs[a.jobId]? = some j ∧ j.completedAt = none

/-- **One action** of call `i`: it keeps the invariant and the attempts of the others, and starts
wallet calls of open jobs alone. -/
structure Move (i : Nat) (w w' : World) : Prop where
  sound : Sound w → Sound w'
  others : ∀ (m : Nat) (a : Attempt), w.attempts[m]? = some a → a.owner ≠ i →
    w'.attempts[m]? = some a
  started : ∀ (m : Nat) (a : Attempt), w'.attempts[m]? = some a → a.phase = .calling →
    w.attempts[m]? = some a ∨ ∃ j, w.jobs[a.jobId]? = some j ∧ j.completedAt = none

theorem Move.refl (i : Nat) (w : World) : Move i w w :=
  ⟨fun h => h, fun _ _ h _ => h, fun _ _ h _ => .inl h⟩

/-! ## An attempt goes on -/

/-- The attempts after one of them came to another phase. -/
theorem enter_cases {phase : Phase} (ha : w.attempts[m]? = some a)
    (h : (w.enter m phase).attempts[m']? = some a') :
    (m' = m ∧ a' = { a with phase }) ∨ (m' ≠ m ∧ w.attempts[m']? = some a') := by
  simp only [World.enter, Table.modify_eq_set ha] at h
  rcases Table.getElem?_set_cases h with ⟨hm, ha', -⟩ | ⟨hm, h⟩
  · exact .inl ⟨hm, ha'⟩
  · exact .inr ⟨hm, h⟩

/-- The attempt after it came to another phase. -/
theorem enter_self (phase : Phase) (ha : w.attempts[m]? = some a) :
    (w.enter m phase).attempts[m]? = some { a with phase } := by
  simp only [World.enter, Table.modify_eq_set ha]
  exact Table.getElem?_set_self_of_some ha

/-- An attempt before one of them came to another phase: its job is the same, and it was under way
if it still is. -/
theorem enter_before {phase : Phase} (ha : w.attempts[m]? = some a) (hdone : a.phase ≠ .done)
    (h : (w.enter m phase).attempts[m']? = some a') : ∃ b, w.attempts[m']? = some b ∧
      b.jobId = a'.jobId ∧ b.deadline = a'.deadline ∧ (a'.phase ≠ .done → b.phase ≠ .done) := by
  rcases enter_cases ha h with ⟨rfl, rfl⟩ | ⟨-, h⟩
  · exact ⟨a, ha, rfl, rfl, fun _ => hdone⟩
  · exact ⟨a', h, rfl, rfl, fun h => h⟩

/-- **The invariant survives an attempt that goes on**: it reads a job that is open, and nobody gets
past the reading who was not, unless the job is open. -/
theorem Sound.enter {phase : Phase} (h : Sound w) (ha : w.attempts[m]? = some a)
    (hdone : a.phase ≠ .done)
    (htaken : phase = .taken → ∃ j, w.jobs[a.jobId]? = some j ∧ j.completedAt = none)
    (hpast : phase.past → a.phase.past ∨ ∃ j, w.jobs[a.jobId]? = some j ∧ j.completedAt = none) :
    Sound (w.enter m phase) := by
  have hbefore : ∀ x ∈ (w.enter m phase).attempts, ∃ b ∈ w.attempts, b.jobId = x.jobId ∧
      b.deadline = x.deadline ∧ (x.phase ≠ .done → b.phase ≠ .done) := by
    intro x hx
    obtain ⟨m', hm'⟩ := List.mem_iff_getElem?.mp hx
    obtain ⟨b, hb, hrest⟩ := enter_before ha hdone hm'
    exact ⟨b, List.mem_of_getElem? hb, hrest⟩
  refine ⟨fun x hx => ?_, fun x hx hx' => ?_, fun x hx hx' j hj hopen => ?_,
    fun m₁ m₂ x₁ x₂ h₁ h₂ hjob hx₁ hx₂ j hj hopen => ?_, fun m₁ m₂ x₁ x₂ h₁ h₂ hjob hx₁ hx₂ => ?_,
    fun x hx hx' => ?_⟩
  · obtain ⟨b, hb, hid, -, -⟩ := hbefore x hx
    exact hid ▸ h.placed b hb
  · obtain ⟨b, hb, -, hdead, hb'⟩ := hbefore x hx
    exact hdead ▸ h.inTime b hb (hb' hx')
  · obtain ⟨b, hb, hid, hdead, hb'⟩ := hbefore x hx
    rw [← hdead]
    exact h.held b hb (hb' hx') j (hid.symm ▸ hj) hopen
  · obtain ⟨b₁, hb₁, hid₁, -, hb₁'⟩ := enter_before ha hdone h₁
    obtain ⟨b₂, hb₂, hid₂, -, hb₂'⟩ := enter_before ha hdone h₂
    exact h.sole m₁ m₂ b₁ b₂ hb₁ hb₂ (hid₁.trans (hjob.trans hid₂.symm)) (hb₁' hx₁) (hb₂' hx₂) j
      (hid₁.symm ▸ hj) hopen
  · -- the attempt that moved was past its reading, or its job is open and it is alone with it
    have hself : ∀ m₃ x₃, w.attempts[m₃]? = some x₃ → x₃.jobId = a.jobId → phase.past →
        x₃.phase.past → m₃ = m := by
      intro m₃ x₃ h₃ hjob hphase hx₃
      rcases hpast hphase with hp | ⟨j, hj, hopen⟩
      · exact h.past m₃ m x₃ a h₃ ha hjob hx₃ hp
      · exact h.sole m₃ m x₃ a h₃ ha hjob hx₃.2 hdone j (hjob ▸ hj) hopen
    rcases enter_cases ha h₁ with ⟨rfl, rfl⟩ | ⟨-, h₁'⟩
    · rcases enter_cases ha h₂ with ⟨rfl, rfl⟩ | ⟨-, h₂'⟩
      · rfl
      · exact (hself m₂ x₂ h₂' hjob.symm hx₁ hx₂).symm
    · rcases enter_cases ha h₂ with ⟨rfl, rfl⟩ | ⟨-, h₂'⟩
      · exact hself m₁ x₁ h₁' hjob hx₂ hx₁
      · exact h.past m₁ m₂ x₁ x₂ h₁' h₂' hjob hx₁ hx₂
  · obtain ⟨m', hm'⟩ := List.mem_iff_getElem?.mp hx
    rcases enter_cases ha hm' with ⟨rfl, rfl⟩ | ⟨-, hm'⟩
    · exact htaken hx'
    · exact h.opened x (List.mem_of_getElem? hm') hx'

/-- The end of an attempt keeps the invariant. -/
theorem Sound.finish (h : Sound w) (ha : w.attempts[m]? = some a) (hdone : a.phase ≠ .done) :
    Sound (w.enter m .done) :=
  h.enter ha hdone (fun hd => nomatch hd) fun hp => absurd rfl hp.2

/-! ## A job is changed -/

/-- The jobs after one of them was changed. -/
theorem updateJob_cases {f : PendingWalletJob → PendingWalletJob} (hj : w.jobs[n]? = some j)
    (h : (w.updateJob n f).jobs[m]? = some j') :
    (m = n ∧ j' = f j) ∨ (m ≠ n ∧ w.jobs[m]? = some j') := by
  simp only [World.updateJob, Table.modify_eq_set hj] at h
  rcases Table.getElem?_set_cases h with ⟨hm, hj', -⟩ | ⟨hm, h⟩
  · exact .inl ⟨hm, hj'⟩
  · exact .inr ⟨hm, h⟩

/-- **The invariant survives a change of a job**: nobody works on it if it is open afterwards, and
nobody has just read it if it is not; nothing is opened again. -/
theorem Sound.updateJob {f : PendingWalletJob → PendingWalletJob} (h : Sound w)
    (hj : w.jobs[n]? = some j)
    (hopen : (f j).completedAt = none → ∀ a ∈ w.attempts, a.jobId = n → a.phase = .done)
    (hclosed : (f j).completedAt ≠ none → ∀ a ∈ w.attempts, a.jobId = n → a.phase ≠ .taken) :
    Sound (w.updateJob n f) := by
  refine ⟨fun x hx => ?_, h.inTime, fun x hx hx' j' hj' hnone => ?_,
    fun m₁ m₂ x₁ x₂ h₁ h₂ hjob hx₁ hx₂ j' hj' hnone => ?_, h.past, fun x hx hx' => ?_⟩
  · simp only [World.updateJob, List.length_modify]
    exact h.placed x hx
  · rcases updateJob_cases hj hj' with ⟨hid, rfl⟩ | ⟨-, hj'⟩
    · exact absurd (hopen hnone x hx hid) hx'
    · exact h.held x hx hx' j' hj' hnone
  · rcases updateJob_cases hj hj' with ⟨hid, rfl⟩ | ⟨-, hj'⟩
    · exact absurd (hopen hnone x₁ (List.mem_of_getElem? h₁) hid) hx₁
    · exact h.sole m₁ m₂ x₁ x₂ h₁ h₂ hjob hx₁ hx₂ j' hj' hnone
  · obtain ⟨j', hj', hnone⟩ := h.opened x hx hx'
    by_cases hid : x.jobId = n
    · obtain rfl : j = j' := Option.some.inj (hj.symm.trans (hid ▸ hj'))
      have hstill : (f j).completedAt = none := by
        by_contra hsome
        exact hclosed hsome x hx hid hx'
      refine ⟨f j, ?_, hstill⟩
      rw [hid]
      simp only [World.updateJob, Table.modify_eq_set hj]
      exact Table.getElem?_set_self_of_some hj
    · refine ⟨j', ?_, hnone⟩
      simp only [World.updateJob, Table.modify_eq_set hj]
      exact (Table.getElem?_set_of_ne hid).trans hj'

/-- The job of an attempt. -/
theorem Sound.job (h : Sound w) (ha : w.attempts[m]? = some a) :
    ∃ j, w.jobs[a.jobId]? = some j :=
  ⟨_, List.getElem?_eq_getElem (h.placed a (List.mem_of_getElem? ha))⟩

/-- **The invariant survives a completion** by an attempt that is past its reading. -/
theorem Sound.completed (h : Sound w) (ha : w.attempts[m]? = some a) (hp : a.phase.past)
    (attempts : Nat) : Sound (w.completed m a.jobId attempts) := by
  obtain ⟨j, hj⟩ := h.job ha
  refine (h.finish ha hp.2).updateJob hj (fun hnone => nomatch hnone) fun _ x hx hid hx' => ?_
  obtain ⟨m', hm'⟩ := List.mem_iff_getElem?.mp hx
  rcases enter_cases ha hm' with ⟨-, rfl⟩ | ⟨hne, hm'⟩
  · cases hx'
  · have hpast : x.phase.past := by
      rw [hx']
      exact Phase.past_taken
    exact hne (h.past m' m x a hm' ha hid hpast hp)

/-- **The invariant survives putting a job off.** -/
theorem Sound.rescheduled (h : Sound w) (ha : w.attempts[m]? = some a) (hdone : a.phase ≠ .done)
    (attempts : Nat) (lastError : String) :
    Sound (w.rescheduled m a.jobId attempts lastError) := by
  obtain ⟨j, hj⟩ := h.job ha
  refine (h.finish ha hdone).updateJob hj (fun hopen x hx hid => ?_) fun hclosed x hx hid hx' => ?_
  · obtain ⟨m', hm'⟩ := List.mem_iff_getElem?.mp hx
    rcases enter_cases ha hm' with ⟨-, rfl⟩ | ⟨hne, hm'⟩
    · rfl
    · by_contra hx'
      exact hne (h.sole m' m x a hm' ha hid hx' hdone j (hid ▸ hj) hopen)
  · obtain ⟨j', hj', hopen⟩ := (h.finish ha hdone).opened x hx hx'
    obtain rfl : j = j' := Option.some.inj (hj.symm.trans (hid ▸ hj'))
    exact hclosed hopen

/-- Nobody works on an open job that can be locked. -/
theorem Sound.idle (h : Sound w) (hj : w.jobs[n]? = some j) (hl : j.lockable w.now = true)
    (hopen : j.completedAt = none) (ha : a ∈ w.attempts) (hid : a.jobId = n) : a.phase = .done := by
  by_contra hdone
  obtain ⟨lock, hlock, hdead⟩ := h.held a ha hdone j (hid ▸ hj) hopen
  have hin := h.inTime a ha hdone
  simp only [PendingWalletJob.lockable, hlock, Option.all_some, decide_eq_true_eq] at hl
  exact absurd hl (Nat.not_lt.mpr (hdead ▸ hin))

/-- **The invariant survives taking a lock.** -/
theorem Sound.locked (h : Sound w) (hj : w.jobs[n]? = some j) (hl : j.lockable w.now = true) (i : Nat) :
    Sound (w.locked i n) := by
  have hnew : ∀ {m' x}, (w.locked i n).attempts[m']? = some x → w.attempts[m']? = some x ∨
      (m' = w.attempts.length ∧ x = ⟨i, n, w.now + lockTtlMs, .locked⟩) :=
    fun hx => Table.getElem?_concat_cases hx
  have hjobs : ∀ {m' j'}, (w.locked i n).jobs[m']? = some j' →
      (m' = n ∧ j' = { j with lockedUntil := some ⟨i, w.now + lockTtlMs⟩ }) ∨
        (m' ≠ n ∧ w.jobs[m']? = some j') := fun hj' => updateJob_cases hj hj'
  refine ⟨fun x hx => ?_, fun x hx hx' => ?_, fun x hx hx' j' hj' hopen => ?_,
    fun m₁ m₂ x₁ x₂ h₁ h₂ hjob hx₁ hx₂ j' hj' hopen => ?_, fun m₁ m₂ x₁ x₂ h₁ h₂ hjob hx₁ hx₂ => ?_,
    fun x hx hx' => ?_⟩
  · have hlen : (w.locked i n).jobs.length = w.jobs.length := by
      simp [World.locked, World.updateJob]
    rw [hlen]
    rcases List.mem_append.mp hx with hx | hx
    · exact h.placed x hx
    · rw [List.mem_singleton.mp hx]
      exact (List.getElem?_eq_some_iff.mp hj).1
  · rcases List.mem_append.mp hx with hx | hx
    · exact h.inTime x hx hx'
    · rw [List.mem_singleton.mp hx]
      exact Nat.le_add_right _ _
  · rcases List.mem_append.mp hx with hx | hx
    · rcases hjobs hj' with ⟨hid, rfl⟩ | ⟨-, hj'⟩
      · exact absurd (h.idle hj hl hopen hx hid) hx'
      · exact h.held x hx hx' j' hj' hopen
    · obtain rfl := List.mem_singleton.mp hx
      rcases hjobs hj' with ⟨-, rfl⟩ | ⟨hne, -⟩
      · exact ⟨_, rfl, rfl⟩
      · exact absurd rfl hne
  · rcases hjobs hj' with ⟨hid, rfl⟩ | ⟨hne, hj'⟩
    · -- whoever works on the job is the new attempt
      have hlast : ∀ m₃ x₃, (w.locked i n).attempts[m₃]? = some x₃ → x₃.jobId = n →
          x₃.phase ≠ .done → m₃ = w.attempts.length := by
        intro m₃ x₃ h₃ hid₃ hx₃
        rcases hnew h₃ with h₃ | ⟨rfl, -⟩
        · exact absurd (h.idle hj hl hopen (List.mem_of_getElem? h₃) hid₃) hx₃
        · rfl
      rw [hlast m₁ x₁ h₁ hid hx₁, hlast m₂ x₂ h₂ (hjob ▸ hid) hx₂]
    · rcases hnew h₁ with h₁ | ⟨-, rfl⟩
      · rcases hnew h₂ with h₂ | ⟨-, rfl⟩
        · exact h.sole m₁ m₂ x₁ x₂ h₁ h₂ hjob hx₁ hx₂ j' hj' hopen
        · exact absurd hjob hne
      · exact absurd rfl hne
  · rcases hnew h₁ with h₁ | ⟨-, rfl⟩
    · rcases hnew h₂ with h₂ | ⟨-, rfl⟩
      · exact h.past m₁ m₂ x₁ x₂ h₁ h₂ hjob hx₁ hx₂
      · exact absurd rfl hx₂.1
    · exact absurd rfl hx₁.1
  · rcases List.mem_append.mp hx with hx | hx
    · obtain ⟨j', hj', hopen⟩ := h.opened x hx hx'
      by_cases hid : x.jobId = n
      · obtain rfl : j = j' := Option.some.inj (hj.symm.trans (hid ▸ hj'))
        refine ⟨{ j with lockedUntil := some ⟨i, w.now + lockTtlMs⟩ }, ?_, hopen⟩
        simp only [World.locked, World.updateJob, Table.modify_eq_set hj, hid]
        exact Table.getElem?_set_self_of_some hj
      · refine ⟨j', ?_, hopen⟩
        simp only [World.locked, World.updateJob, Table.modify_eq_set hj]
        exact (Table.getElem?_set_of_ne hid).trans hj'
    · rw [List.mem_singleton.mp hx] at hx'
      cases hx'

/-! ## The calls keep to the rules -/

/-- What call `i` may rely on: nobody else touches its attempts. -/
def Rely (i : Nat) (w w' : World) : Prop := ∀ (m : Nat) (a : Attempt), w.attempts[m]? = some a →
  a.owner = i → w'.attempts[m]? = some a

/-- The rules for call `i`, a `k`. -/
def rules (i : Nat) (k : Call) : Rules World := ⟨Sound, k.Waits, Rely i, Move i⟩

/-- Call `i`, a `k`, may go on with a program. -/
abbrev Walk {α : Type} (i : Nat) (k : Call) (p : Action α) (Q : α → World → Prop) (w : World) :
    Prop := Go (rules i k) i p Q w

variable {k : Call}

/-- Attempt `m` of call `i` at a job is in a phase that meets a condition. -/
def At (i m n : Nat) (phase : Phase → Prop) (w : World) : Prop :=
  ∃ a, w.attempts[m]? = some a ∧ a.owner = i ∧ a.jobId = n ∧ phase a.phase

theorem At.rely {phase : Phase → Prop} (h : At i m n phase w) (hr : Rely i w w') :
    At i m n phase w' := by
  obtain ⟨a, ha, hi, hn, hp⟩ := h
  exact ⟨a, hr m a ha hi, hi, hn, hp⟩

theorem At.mono {f g : Phase → Prop} (h : At i m n f w) (hfg : ∀ phase, f phase → g phase) :
    At i m n g w := by
  obtain ⟨a, ha, hi, hn, hp⟩ := h
  exact ⟨a, ha, hi, hn, hfg _ hp⟩

/-- The attempts of the others stay as they are when one of call `i` goes on. -/
theorem enter_others {phase : Phase} (ha : w.attempts[m]? = some a) (hi : a.owner = i)
    (h : w.attempts[m']? = some a') (hi' : a'.owner ≠ i) :
    (w.enter m phase).attempts[m']? = some a' := by
  have hne : m' ≠ m := by
    rintro rfl
    obtain rfl : a = a' := Option.some.inj (ha.symm.trans h)
    exact hi' hi
  simp only [World.enter, Table.modify_eq_set ha]
  exact (Table.getElem?_set_of_ne hne).trans h

/-- **An attempt goes on**, as an action. -/
theorem move_enter {phase : Phase} {f : Phase → Prop} (h : At i m n f w)
    (hdone : ∀ phase, f phase → phase ≠ .done)
    (htaken : phase = .taken → ∃ j, w.jobs[n]? = some j ∧ j.completedAt = none)
    (hpast : phase.past → (∀ phase, f phase → phase.past) ∨
      ∃ j, w.jobs[n]? = some j ∧ j.completedAt = none)
    (hstart : phase = .calling → ∃ j, w.jobs[n]? = some j ∧ j.completedAt = none) :
    Move i w (w.enter m phase) := by
  obtain ⟨a, ha, hi, rfl, hf⟩ := h
  refine ⟨fun hw => hw.enter ha (hdone _ hf) htaken fun hp => (hpast hp).imp_left fun hall =>
    hall _ hf, fun m' a' h' hi' => enter_others ha hi h' hi', fun m' a' h' hcalling => ?_⟩
  rcases enter_cases ha h' with ⟨-, rfl⟩ | ⟨-, h'⟩
  · exact .inr (hstart hcalling)
  · exact .inl h'

/-- The end of an attempt, as an action. -/
theorem move_finish {f : Phase → Prop} (h : At i m n f w)
    (hdone : ∀ phase, f phase → phase ≠ .done) : Move i w (w.enter m .done) :=
  move_enter h hdone (fun hd => nomatch hd) (fun hp => absurd rfl hp.2) fun hd => nomatch hd

/-- What an attempt came to. -/
theorem at_enter {phase : Phase} {f : Phase → Prop} (h : At i m n f w) :
    At i m n (· = phase) (w.enter m phase) := by
  obtain ⟨a, ha, hi, hn, -⟩ := h
  exact ⟨_, enter_self phase ha, hi, hn, rfl⟩

/-- A change of jobs alone, as an action. -/
theorem move_updateJob {f : PendingWalletJob → PendingWalletJob}
    (h : Sound w → Sound (w.updateJob n f)) : Move i w (w.updateJob n f) :=
  ⟨h, fun _ _ h' _ => h', fun _ _ h' _ => .inl h'⟩

/-- The end of an attempt with a change of its job, as an action. -/
theorem move_write {f : Phase → Prop} {g : PendingWalletJob → PendingWalletJob}
    (h : At i m n f w) (hsound : Sound w → Sound ((w.enter m .done).updateJob n g)) :
    Move i w ((w.enter m .done).updateJob n g) := by
  obtain ⟨a, ha, hi, rfl, -⟩ := h
  refine ⟨hsound, fun m' a' h' hi' => enter_others ha hi h' hi', fun m' a' h' hcalling => ?_⟩
  rcases enter_cases ha h' with ⟨-, rfl⟩ | ⟨-, h'⟩
  · cases hcalling
  · exact .inl h'

/-- Taking the lock of a job. -/
theorem lockJob_go : Walk i k (lockJob n) (fun r w' => ∀ m, r = some m →
    At i m n (· = .locked) w') w := by
  refine Go.request fun w₁ _ _ _ => ?_
  by_cases hlock : (w₁.jobs[n]?).any fun j => j.lockable w₁.now
  · simp only [hlock, if_true]
    obtain ⟨j, hj, hl⟩ := (Option.any_eq_true _ _).mp hlock
    have hlast := Table.getElem?_concat_length w₁.attempts ⟨i, n, w₁.now + lockTtlMs, .locked⟩
    refine ⟨⟨fun hw => hw.locked hj hl i, fun m a ha _ => Table.getElem?_concat_of_some ha,
      fun m a ha hcalling => ?_⟩, fun _ m hm => ?_⟩
    · rcases Table.getElem?_concat_cases ha with ha | ⟨-, rfl⟩
      · exact .inl ha
      · cases hcalling
    · obtain rfl := Option.some.inj hm
      exact ⟨_, hlast, rfl, rfl, rfl⟩
  · simp only [hlock, Bool.false_eq_true, if_false]
    exact ⟨.refl i w₁, fun _ m hm => nomatch hm⟩

/-- Reading the job of an attempt. -/
theorem takeJob_go (h : At i m n (· = .locked) w) :
    Walk i k (takeJob m n) (fun job w' => ∀ j, job = some j → At i m n (· = .taken) w') w := by
  have hdone : ∀ phase : Phase, phase = .locked → phase ≠ .done := by
    rintro _ rfl hd
    cases hd
  refine Go.lift fun w₁ hr _ c job w₂ hrun _ => ?_
  have h₁ := h.rely hr
  split at hrun
  · obtain ⟨rfl, rfl⟩ := Prod.mk.inj (Option.some.inj hrun)
    exact ⟨move_finish h₁ hdone, fun _ j hj => nomatch hj⟩
  · split at hrun
    · obtain ⟨rfl, rfl⟩ := Prod.mk.inj (Option.some.inj hrun)
      exact ⟨move_finish h₁ hdone, fun _ j hj => nomatch hj⟩
    · rename_i job hjob
      obtain ⟨rfl, rfl⟩ := Prod.mk.inj (Option.some.inj hrun)
      obtain ⟨hj, hopen⟩ := Option.filter_eq_some_iff.mp hjob
      have hrow : ∃ j, w₁.jobs[n]? = some j ∧ j.completedAt = none :=
        ⟨job, hj, of_decide_eq_true hopen⟩
      exact ⟨move_enter h₁ hdone (fun _ => hrow) (fun _ => .inr hrow) (fun hs => nomatch hs),
        fun _ _ _ => at_enter h₁⟩

/-- Looking for a wallet and a credential. -/
theorem buildAdapter_go (h : At i m n (· = .taken) w) :
    Walk i k (buildAdapter m) (fun adapter w' => ∀ b, adapter = some b →
      At i m n (· = .taken) w') w := by
  refine Go.lift fun w₁ hr _ c adapter w₂ hrun _ => ?_
  have h₁ := h.rely hr
  split at hrun
  · obtain ⟨rfl, rfl⟩ := Prod.mk.inj (Option.some.inj hrun)
    refine ⟨move_finish h₁ ?_, fun _ b hb => nomatch hb⟩
    rintro _ rfl hd
    cases hd
  · obtain ⟨rfl, rfl⟩ := Prod.mk.inj (Option.some.inj hrun)
    exact ⟨.refl i w₁, fun _ _ _ => h₁⟩

/-- Putting a job off. -/
theorem reschedule_go {attempts : Nat} {lastError : String} (h : At i m n (· ≠ .done) w) :
    Walk i k (reschedule m n attempts lastError) (fun _ _ => True) w := by
  refine Go.lift fun w₁ hr _ c _ w₂ hrun _ => ?_
  have h₁ := h.rely hr
  split at hrun
  · obtain rfl := congrArg Prod.snd (Option.some.inj hrun)
    exact ⟨move_finish h₁ fun _ hp => hp, fun _ => trivial⟩
  · obtain rfl := congrArg Prod.snd (Option.some.inj hrun)
    refine ⟨move_write h₁ fun hw => ?_, fun _ => trivial⟩
    obtain ⟨a, ha, -, rfl, hp⟩ := h₁
    exact hw.rescheduled ha hp attempts lastError

/-- **The wallet call of a job** that is open: it is the only one. -/
theorem callWallet_go {job : PendingWalletJob} (h : At i m n (· = .taken) w) :
    Walk i k (callWallet m job) (fun _ w' => At i m n Phase.past w') w := by
  unfold callWallet
  split
  · refine h.mono ?_
    rintro _ rfl
    exact Phase.past_taken
  · have hstart : Walk i k (startCall m) (fun _ w' => At i m n (· = .calling) w') w := by
      refine Go.modify fun w₁ hr hw _ => ?_
      have h₁ := h.rely hr
      obtain ⟨a, ha, -, hn, ht⟩ := h₁
      have hopen := hw.opened a (List.mem_of_getElem? ha) ht
      rw [hn] at hopen
      refine ⟨move_enter (h.rely hr) ?_ (fun hs => nomatch hs) (fun _ => .inr hopen) fun _ => hopen,
        fun _ => at_enter (h.rely hr)⟩
      rintro _ rfl hd
      cases hd
    refine Go.bind_iff.mpr (hstart.mono fun _ w h => ?_)
    refine Go.lift fun w₁ hr _ c status w₂ hrun _ => ?_
    have h₁ := h.rely hr
    obtain ⟨-, rfl⟩ := Prod.mk.inj (Option.some.inj hrun)
    refine ⟨move_enter h₁ ?_ (fun hs => nomatch hs) (fun _ => .inl ?_) (fun hs => nomatch hs),
      fun _ => (at_enter h₁).mono ?_⟩
    · rintro _ rfl hd
      cases hd
    · rintro _ rfl
      exact Phase.past_calling
    · rintro _ rfl
      exact Phase.past_called

/-- A write at the end of an attempt. -/
theorem tryWrite_go {f : World → World} (h : At i m n Phase.past w)
    (hf : ∀ {w}, At i m n Phase.past w → Move i w (f w)) :
    Walk i k (tryWrite f) (fun done w' => done = false → At i m n (· ≠ .done) w') w := by
  refine Go.lift fun w₁ hr _ c done w₂ hrun _ => ?_
  have h₁ := h.rely hr
  split at hrun
  · obtain ⟨rfl, rfl⟩ := Prod.mk.inj (Option.some.inj hrun)
    exact ⟨.refl i w₁, fun _ _ => h₁.mono fun _ hp => hp.2⟩
  · obtain ⟨rfl, rfl⟩ := Prod.mk.inj (Option.some.inj hrun)
    exact ⟨hf h₁, fun _ hd => nomatch hd⟩

/-- **One attempt**; when an exception came it is still under way. -/
theorem attempt_go {job : PendingWalletJob} (h : At i m n (· = .taken) w) :
    Walk i k (attempt m n job) (fun done w' => done = false → At i m n (· ≠ .done) w') w := by
  refine Go.bind_iff.mpr ((callWallet_go h).mono fun status w h => ?_)
  cases status with
  | none => exact fun _ => h.mono fun _ hp => hp.2
  | some status =>
      dsimp only
      split
      · refine tryWrite_go h fun h => move_write h fun hw => ?_
        obtain ⟨a, ha, -, rfl, hp⟩ := h
        exact hw.completed ha hp _
      · refine tryWrite_go h fun h => move_write h fun hw => ?_
        obtain ⟨a, ha, -, rfl, hp⟩ := h
        exact hw.rescheduled ha hp.2 _ _

/-- What is left of a run once the job is locked. -/
theorem work_go (h : At i m n (· = .locked) w) : Walk i k (work m n) (fun _ _ => True) w := by
  refine Go.bind_iff.mpr ((takeJob_go h).mono fun job w h => ?_)
  cases job with
  | none => trivial
  | some job =>
      refine Go.bind_iff.mpr ((buildAdapter_go (h job rfl)).mono fun adapter w h => ?_)
      cases adapter with
      | none => trivial
      | some b =>
          have ht := h b rfl
          cases b with
          | false =>
              refine reschedule_go (ht.mono ?_)
              rintro _ rfl hd
              cases hd
          | true =>
              refine Go.bind_iff.mpr ((attempt_go ht).mono fun done w h => ?_)
              cases done with
              | true => trivial
              | false => exact reschedule_go (h rfl)

/-- **One run of one job.** -/
theorem runJob_go : Walk i k (runJob n) (fun _ _ => True) w := by
  refine Go.bind_iff.mpr (lockJob_go.mono fun r w h => ?_)
  cases r with
  | none => trivial
  | some m => exact work_go (h m rfl)

/-- **One poll of the queue.** -/
theorem tick_go : Walk i k tick (fun _ _ => True) w := by
  refine Go.bind_iff.mpr (Go.mono (Q := fun _ _ => True) (Go.lift fun w₁ _ _ c _ w₂ hrun _ => ?_)
    fun jobs w _ => Go.each (fun _ _ => True) trivial (fun job jobs w _ => runJob_go)
      fun _ _ => trivial)
  dsimp only at hrun
  split at hrun
  · obtain ⟨-, rfl⟩ := Prod.mk.inj (Option.some.inj hrun)
    exact ⟨.refl i w₁, fun _ => trivial⟩
  · cases hrun

/-- A route that changes a job. -/
theorem withJob_go {operatorId : OperatorId} {change : Millis → PendingWalletJob → PendingWalletJob}
    (h : ∀ {w}, k.Waits w (w.updateJob n (change w.now)) → (w.updateJob n (change w.now)).jobs ≠ w.jobs →
      ∀ j, w.jobs[n]? = some j → Sound w → Sound (w.updateJob n (change w.now))) :
    Walk i k (withJob operatorId n change) (fun _ _ => True) w := by
  refine Go.bind_iff.mpr (Go.mono (Q := fun _ _ => True) (Go.query (.refl i) fun _ _ _ => trivial)
    fun job w _ => ?_)
  split
  · refine Go.modify fun w₁ _ _ hp => ⟨move_updateJob fun hw => ?_, fun _ => trivial⟩
    cases hj : w₁.jobs[n]? with
    | none =>
        have hsame : w₁.updateJob n (change w₁.now) = w₁ := by
          rw [World.updateJob, Table.modify_eq_self hj]
        exact hsame.symm ▸ hw
    | some j =>
        by_cases hjobs : (w₁.updateJob n (change w₁.now)).jobs = w₁.jobs
        · have hsame : w₁.updateJob n (change w₁.now) = w₁ := by
            have hmodify : w₁.jobs.modify n (change w₁.now) = w₁.jobs := hjobs
            rw [World.updateJob, hmodify]
          exact hsame.symm ▸ hw
        · exact h hp hjobs j hj hw
  · trivial

/-- **Putting a job back into the queue** when nobody works on it. -/
theorem retry_go {operatorId : OperatorId} :
    Walk i (.retry operatorId n) (retry operatorId n) (fun _ _ => True) w := by
  refine withJob_go fun hwaits hjobs j hj hw => hw.updateJob hj (fun _ => hwaits hjobs) ?_
  intro hclosed a ha hid htaken
  obtain ⟨j', hj', hopen⟩ := hw.opened a ha htaken
  obtain rfl : j = j' := Option.some.inj (hj.symm.trans (hid ▸ hj'))
  exact hclosed hopen

/-- **Cancelling a job** that nobody is about to call the wallet for. -/
theorem cancel_go {operatorId : OperatorId} {reason : String} :
    Walk i (.cancel operatorId n reason) (cancel operatorId n reason) (fun _ _ => True) w :=
  withJob_go fun hwaits hjobs _ hj hw => hw.updateJob hj (fun hnone => nomatch hnone)
    fun _ => hwaits hjobs

/-! ## Runs -/

/-- A wallet call is queued. -/
theorem Sound.enqueue (h : Sound w) (job : PendingWalletJob) : Sound (w.outside (.enqueue job)) := by
  have hold : ∀ a ∈ w.attempts, ∀ j, (w.outside (.enqueue job)).jobs[a.jobId]? = some j →
      w.jobs[a.jobId]? = some j := by
    intro a ha j hj
    rcases Table.getElem?_concat_cases hj with hj | ⟨hid, -⟩
    · exact hj
    · exact absurd hid (h.placed a ha).ne
  refine ⟨fun a ha => ?_, h.inTime, fun a ha hp j hj => h.held a ha hp j (hold a ha j hj),
    fun m₁ m₂ a₁ a₂ h₁ h₂ hjob hp₁ hp₂ j hj => h.sole m₁ m₂ a₁ a₂ h₁ h₂ hjob hp₁ hp₂ j
      (hold a₁ (List.mem_of_getElem? h₁) j hj), h.past, fun a ha hp => ?_⟩
  · have hlen : (w.outside (.enqueue job)).jobs.length = w.jobs.length + 1 := List.length_append
    rw [hlen]
    exact (h.placed a ha).trans (Nat.lt_succ_self _)
  · obtain ⟨j, hj, hopen⟩ := h.opened a ha hp
    exact ⟨j, Table.getElem?_concat_of_some hj, hopen⟩

/-- Time passes, and no attempt outlives its lock. -/
theorem Sound.elapse (h : Sound w) {ms : Millis}
    (hin : ∀ a ∈ w.attempts, a.phase ≠ .done → w.now + ms ≤ a.deadline) :
    Sound (w.outside (.elapse ms)) :=
  ⟨h.placed, hin, h.held, h.sole, h.past, h.opened⟩

/-- **The rules of all calls fit together.** -/
def conduct : Discipline queue Orderly where
  inv := Sound
  permit _ k := k.Waits
  envPermit _ _ w' := ∀ a ∈ w'.attempts, a.phase ≠ .done → w'.now ≤ a.deadline
  envFits _ _ _ _ := True
  compat _ _ := True
  rely i _ := Rely i
  guar i _ := Move i
  permit_of {p i c q t} h ht := by
    refine h.2 t.call ?_
    simp [Pool.calls, ht]
  envPermit_of h := h.1.inTime
  envFits_of _ _ _ _ := trivial
  compat_of _ _ _ _ _ := ⟨trivial, trivial⟩
  rely_refl _ _ _ := fun _ _ h _ => h
  rely_trans _ _ _ _ _ h h' := fun m a ha hi => h' m a (h m a ha hi) hi
  guar_inv hw _ h := h.sound hw
  env_inv {x w w'} hw hp h := by
    obtain rfl : w.outside x = w' := Option.some.inj h
    cases x with
    | elapse ms => exact hw.elapse hp
    | enqueue job => exact hw.enqueue job
  guar_rely hij _ _ _ h := fun m a ha hi => h.others m a ha (hi ▸ hij)
  env_rely {i k x w w'} _ _ _ h _ := by
    obtain rfl : w.outside x = w' := Option.some.inj h
    cases x <;> exact fun _ _ ha _ => ha
  code_go {p k q} _ _ _ := by
    cases k with
    | tick => exact tick_go
    | retry operatorId jobId => exact retry_go
    | cancel operatorId jobId reason => exact cancel_go

/-- An empty queue. -/
theorem initial_sound (now : Millis) : Sound (initial now).world := by
  refine ⟨(fun a ha => nomatch ha), (fun a ha => nomatch ha), (fun a ha => nomatch ha),
    fun m _ a _ ha => ?_, fun m _ a _ ha => ?_, (fun a ha => nomatch ha)⟩
  · simp [initial] at ha
  · simp [initial] at ha

/-- **One wallet call of a job at a time**: in every run of any number of polls, retries and
cancellations in which no call is cut off and no attempt outlives its lock, and in which a job is put
back into the queue only when no attempt at it is under way, and cancelled only when no attempt has
read it without calling the wallet yet, at most one wallet call of a job is in flight after every
step, and no step starts one of a job that is completed or cancelled. -/
theorem calls_exclusive {now : Millis} (h : queue.Run Orderly (initial now) p) :
    queue.Run Exclusive (initial now) p := by
  have hok : conduct.Ok (initial now) := Discipline.ok_of_no_tasks (initial_sound now)
  induction h with
  | start => exact .start
  | @step q r e hrun hs hA ih =>
      obtain ⟨hr, hstep⟩ := (hok.run hrun).step hs hA
      refine .step e ih hs ⟨fun m m' a a' ha ha' hjob hc hc' => ?_, fun m a ha hc => ?_⟩
      · have hpast : ∀ x : Attempt, x.phase = .calling → x.phase.past := fun x hx => by
          rw [hx]
          exact Phase.past_calling
        exact Sound.past hr.inv m m' a a' ha ha' hjob (hpast a hc) (hpast a' hc')
      · rcases hstep with ⟨i, _, t, -, -, -, -, hmove⟩ | ⟨x, -, -, hw⟩ | hw
        · exact Move.started hmove m a ha hc
        · obtain hx : q.world.outside x = r.world := Option.some.inj hw
          have hsame : r.world.attempts = q.world.attempts := by
            rw [← hx]
            cases x <;> rfl
          exact .inl (hsame ▸ ha)
        · exact .inl (hw ▸ ha)

namespace Sample

/-- A queued credit. -/
def credit : PendingWalletJob :=
  ⟨0, .win, some 0, some 0,
    ⟨⟨.request, 0, 0⟩, ⟨.credit, 0, 1⟩, some ⟨.stake, 0, 2⟩, .named "player", 0, 0, some 100, some 0⟩,
    0, 0, none, none, none, 0⟩

/-- Nothing throws; the operator has a wallet, which answers; queries hand out row 0. -/
def choice : Choice := ⟨false, true, .ok, [0]⟩

/-- A poll finds the job due, and calls the wallet. -/
def calling : List Happening :=
  [.env (.enqueue credit), .call .tick] ++ List.replicate 5 (.run 0 choice)

/-- An administrator puts the job back into the queue, and another poll comes to the wallet. -/
def rejoining : List Happening :=
  .call (.retry 0 0) :: List.replicate 2 (.run 1 choice) ++
    .call .tick :: List.replicate 4 (.run 2 choice)

end Sample

/-- A poll completes a job. -/
theorem calls_exclusive_completed : ∃ p, queue.Run Orderly (initial 0) p ∧
    p.world.attempts = [⟨0, 0, 60000, .done⟩] ∧ queue.Run Exclusive (initial 0) p := by
  have h : ((queue.exec Orderly (initial 0)
      (Sample.calling ++ List.replicate 2 (.run 0 Sample.choice))).map
        fun p => p.world.attempts) = some [⟨0, 0, 60000, .done⟩] := by
    decide +kernel
  obtain ⟨p, hp, hv⟩ := System.Run.of_exec_map h
  exact ⟨p, hp, hv, calls_exclusive hp⟩

/-- **Two wallet calls of one job are in flight**: an administrator put the job back into the queue
while a runner was calling. -/
theorem two_calls_in_flight : ∃ p q, queue.Run (fun _ e r => InTime e r) (initial 0) p ∧
    queue.step p (.run 2 Sample.choice) = some q ∧ InTime (.run 2 Sample.choice) q ∧
      ¬ Exclusive p (.run 2 Sample.choice) q := by
  have h : ((queue.exec (fun _ e r => InTime e r) (initial 0)
      (Sample.calling ++ Sample.rejoining)).bind fun p =>
        (queue.step p (.run 2 Sample.choice)).map fun q => (q.world.attempts,
          decide (InTime (.run 2 Sample.choice) q))) =
            some ([⟨0, 0, 60000, .calling⟩, ⟨2, 0, 60000, .calling⟩], true) := by
    decide +kernel
  obtain ⟨p, hp, hq⟩ := Option.bind_eq_some_iff.mp h
  obtain ⟨q, hq, hv⟩ := Option.map_eq_some_iff.mp hq
  obtain ⟨hattempts, hin⟩ := Prod.mk.inj hv
  refine ⟨p, q, .of_exec hp, hq, of_decide_eq_true hin, fun he => ?_⟩
  have hsame := he.one 0 1 ⟨0, 0, 60000, .calling⟩ ⟨2, 0, 60000, .calling⟩
    (by rw [hattempts]; rfl) (by rw [hattempts]; rfl) rfl rfl rfl
  cases hsame

end YantraRgs.JobLocks
