import YantraRgs.Await.RelyGuarantee
import YantraRgs.Db.Table
import YantraRgs.Middleware.Idempotency

/-! # Idempotent requests run once

Requests of one key let the handler run once, and all of them are answered what that run answered, as
long as no request looks its key up while the response of an earlier one is not stored yet. Two
requests that look up before either response is stored both run the handler.

* **`Move`** — what one action may do.
* **`Sound`** — the invariant of the log and the stored responses.
* **`Settled`** — the condition.
* **`handled_once`** — the property along every run that meets it. -/

namespace YantraRgs.Idempotency

open Await

variable {i j : Nat} {k : Request} {w w' : World}

/-- What happened to request `i` so far. -/
def World.notes (w : World) (i : Nat) : List Entry := w.log.filter fun x => x.caller = i

/-- **Why request `i` may be noted** to have come to some point. -/
def Reason (w : World) (i : Nat) (key : Option Key) : Note → Prop
  | .missed => ∀ r ∈ w.records, some r.key ≠ key
  | .lookupFailed | .expired => True
  | .started => (key.isSome = true → ∃ x ∈ w.notes i, x.key = key ∧
      (x.note = .missed ∨ x.note = .lookupFailed ∨ x.note = .expired)) ∧
      ∀ x ∈ w.notes i, x.note ≠ .started
  | .handled _ _ => ⟨i, key, .started⟩ ∈ w.log ∧ ∀ x ∈ w.notes i, ∀ s b, x.note ≠ .handled s b
  | .answered s b => ∃ j, ⟨j, key, .handled s b⟩ ∈ w.log
  | .stored => ∃ r ∈ w.records, some r.key = key

/-- **One action** of request `i`. -/
inductive Move (i : Nat) (w : World) : World → Prop
  | idle : Move i w w
  | note (key : Option Key) (note : Note) (h : Reason w i key note) :
      Move i w (w.note i key note)
  | store (key : Key) (httpStatus : Nat) (body : Body) (expiresAt : Millis)
      (h : ⟨i, some key, .handled httpStatus (some body)⟩ ∈ w.log) :
      Move i w ((w.upsert ⟨key, httpStatus, body, expiresAt⟩).note i key .stored)

/-- **The condition on one step**: no lookup fails and no stored response is too old, and a request
finds nothing only when every earlier request under its key that found nothing has stored its
response. -/
def Permit (w w' : World) : Prop :=
  ∀ x ∈ w'.log.drop w.log.length, x.note ≠ .lookupFailed ∧ x.note ≠ .expired ∧
    (x.note = .missed → ∀ y ∈ w.log, y.key = x.key → y.note = .missed →
      ⟨y.caller, y.key, .stored⟩ ∈ w.log)

/-- **The invariant.** -/
structure Sound (w : World) : Prop where
  clean : ∀ x ∈ w.log, x.note ≠ .lookupFailed ∧ x.note ≠ .expired
  missed : ∀ x ∈ w.log, ∀ y ∈ w.log, x.note = .missed → y.note = .missed → x.key = y.key →
    x.caller = y.caller
  started : ∀ x ∈ w.log, x.note = .started → x.key.isSome = true →
    ⟨x.caller, x.key, .missed⟩ ∈ w.log
  startedOnce : ∀ (m n : Nat) (x y : Entry), w.log[m]? = some x → w.log[n]? = some y →
    x.note = .started → y.note = .started → x.caller = y.caller → m = n
  handled : ∀ x ∈ w.log, ∀ s b, x.note = .handled s b → ⟨x.caller, x.key, .started⟩ ∈ w.log
  handledOnce : ∀ x ∈ w.log, ∀ y ∈ w.log, ∀ s b s' b', x.note = .handled s b →
    y.note = .handled s' b' → x.caller = y.caller → s = s' ∧ b = b'
  answered : ∀ x ∈ w.log, ∀ s b, x.note = .answered s b →
    ∃ j, ⟨j, x.key, .handled s b⟩ ∈ w.log
  stored : ∀ x ∈ w.log, x.note = .stored → ∃ r ∈ w.records, some r.key = x.key
  records : ∀ r ∈ w.records, ∃ j, ⟨j, some r.key, .handled r.httpStatus (some r.responseBody)⟩ ∈
    w.log

@[simp] theorem mem_note {key : Option Key} {n : Note} {x : Entry} :
    x ∈ (w.note i key n).log ↔ x ∈ w.log ∨ x = ⟨i, key, n⟩ := by
  simp [World.note]

@[simp] theorem mem_notes {x : Entry} : x ∈ w.notes i ↔ x ∈ w.log ∧ x.caller = i := by
  simp [World.notes]

/-- A stored response is the one that was just stored or an older one. -/
theorem mem_upsert {r r' : InboundIdempotency} (h : r' ∈ (w.upsert r).records) :
    r' = r ∨ r' ∈ w.records := by
  rcases List.mem_cons.mp h with h | h
  · exact .inl h
  · exact .inr (List.mem_of_mem_filter h)

/-- Every action adds at most one entry, of its own request. -/
theorem Move.log (h : Move i w w') :
    w'.log = w.log ∨ ∃ key note, w'.log = w.log ++ [⟨i, key, note⟩] := by
  cases h with
  | idle => exact .inl rfl
  | note key n _ => exact .inr ⟨key, n, rfl⟩
  | store key s b at' _ => exact .inr ⟨key, _, rfl⟩

/-- What the condition says about the entry that an action adds. -/
theorem Permit.entry {key : Option Key} {n : Note} (h : Permit w w')
    (hlog : w'.log = w.log ++ [⟨i, key, n⟩]) : n ≠ .lookupFailed ∧ n ≠ .expired ∧
      (n = .missed → ∀ y ∈ w.log, y.key = key → y.note = .missed →
        ⟨y.caller, y.key, .stored⟩ ∈ w.log) :=
  h ⟨i, key, n⟩ (by rw [hlog]; simp)

/-- **The invariant is kept when something is noted** for a reason. -/
theorem Sound.note (hw : Sound w) {key : Option Key} {n : Note} (h : Reason w i key n)
    (hp : Permit w (w.note i key n)) : Sound (w.note i key n) := by
  obtain ⟨hfailed, hexpired, hmissed⟩ := hp.entry rfl
  constructor
  case clean =>
    intro x hx
    rcases mem_note.mp hx with hx | rfl
    · exact hw.clean x hx
    · exact ⟨hfailed, hexpired⟩
  case missed =>
    -- an earlier request that found nothing has stored its response, which would have been found
    have hnew : ∀ y ∈ w.log, y.key = key → y.note = .missed → n ≠ .missed := by
      rintro y hy hk hm rfl
      obtain ⟨r, hr, hrk⟩ := hw.stored _ (hmissed rfl y hy hk hm) rfl
      exact h r hr (hrk.trans hk)
    intro x hx y hy hxm hym hk
    rcases mem_note.mp hx with hx | rfl <;> rcases mem_note.mp hy with hy | rfl
    · exact hw.missed x hx y hy hxm hym hk
    · exact absurd hym (hnew x hx hk hxm)
    · exact absurd hxm (hnew y hy hk.symm hym)
    · rfl
  case started =>
    intro x hx hs hk
    rcases mem_note.mp hx with hx | rfl
    · exact mem_note.mpr (.inl (hw.started x hx hs hk))
    · obtain rfl : n = .started := hs
      obtain ⟨y, hy, hyk, hyn⟩ := h.1 hk
      obtain ⟨hy, hc⟩ := mem_notes.mp hy
      rcases hyn with hyn | hyn | hyn
      · refine mem_note.mpr (.inl ?_)
        rw [← hc, ← hyk, ← hyn]
        exact hy
      · exact absurd hyn (hw.clean y hy).1
      · exact absurd hyn (hw.clean y hy).2
  case startedOnce =>
    have hnew : ∀ (m : Nat) (x : Entry), w.log[m]? = some x → x.note = .started → x.caller = i →
        n ≠ .started := by
      rintro m x hx hs hc rfl
      exact h.2 x (mem_notes.mpr ⟨List.mem_of_getElem? hx, hc⟩) hs
    intro m m' x y hx hy hxs hys hc
    rcases Table.getElem?_concat_cases hx with hx | ⟨rfl, rfl⟩ <;>
      rcases Table.getElem?_concat_cases hy with hy | ⟨rfl, rfl⟩
    · exact hw.startedOnce m m' x y hx hy hxs hys hc
    · exact absurd hys (hnew m x hx hxs hc)
    · exact absurd hxs (hnew m' y hy hys hc.symm)
    · rfl
  case handled =>
    intro x hx s b hs
    rcases mem_note.mp hx with hx | rfl
    · exact mem_note.mpr (.inl (hw.handled x hx s b hs))
    · obtain rfl : n = .handled s b := hs
      exact mem_note.mpr (.inl h.1)
  case handledOnce =>
    have hnew : ∀ x ∈ w.log, x.caller = i → ∀ s b s' b', x.note = .handled s b →
        n ≠ .handled s' b' := by
      rintro x hx hc s b s' b' hs rfl
      exact h.2 x (mem_notes.mpr ⟨hx, hc⟩) s b hs
    intro x hx y hy s b s' b' hxs hys hc
    rcases mem_note.mp hx with hx | rfl <;> rcases mem_note.mp hy with hy | rfl
    · exact hw.handledOnce x hx y hy s b s' b' hxs hys hc
    · exact absurd hys (hnew x hx hc s b s' b' hxs)
    · exact absurd hxs (hnew y hy hc.symm s' b' s b hys)
    · obtain ⟨rfl, rfl⟩ : s = s' ∧ b = b' := by simpa using hxs.symm.trans hys
      exact ⟨rfl, rfl⟩
  case answered =>
    intro x hx s b hs
    rcases mem_note.mp hx with hx | rfl
    · obtain ⟨j, hj⟩ := hw.answered x hx s b hs
      exact ⟨j, mem_note.mpr (.inl hj)⟩
    · obtain rfl : n = .answered s b := hs
      obtain ⟨j, hj⟩ := h
      exact ⟨j, mem_note.mpr (.inl hj)⟩
  case stored =>
    intro x hx hs
    rcases mem_note.mp hx with hx | rfl
    · exact hw.stored x hx hs
    · obtain rfl : n = .stored := hs
      exact h
  case records =>
    intro r hr
    obtain ⟨j, hj⟩ := hw.records r hr
    exact ⟨j, mem_note.mpr (.inl hj)⟩

/-- The invariant is kept when a response that a handler gave is stored. -/
theorem Sound.upsert (hw : Sound w) {r : InboundIdempotency}
    (h : ∃ j, ⟨j, some r.key, .handled r.httpStatus (some r.responseBody)⟩ ∈ w.log) :
    Sound (w.upsert r) where
  clean := hw.clean
  missed := hw.missed
  started := hw.started
  startedOnce := hw.startedOnce
  handled := hw.handled
  handledOnce := hw.handledOnce
  answered := hw.answered
  stored x hx hs := by
    obtain ⟨r', hr', hk⟩ := hw.stored x hx hs
    by_cases hkey : r'.key = r.key
    · exact ⟨r, List.mem_cons_self .., hkey ▸ hk⟩
    · exact ⟨r', List.mem_cons_of_mem _ (List.mem_filter.mpr ⟨hr', by simpa using hkey⟩), hk⟩
  records r' hr' := by
    rcases mem_upsert hr' with rfl | hr'
    · exact h
    · exact hw.records r' hr'

/-- **The invariant is kept by every permitted action.** -/
theorem Sound.move (hw : Sound w) (hp : Permit w w') (h : Move i w w') : Sound w' := by
  cases h with
  | idle => exact hw
  | note key n h => exact hw.note h hp
  | store key s b expiresAt h =>
      exact (hw.upsert ⟨i, h⟩).note ⟨_, List.mem_cons_self .., rfl⟩ hp

/-- What others may do while request `i` is under way: the log grows, and not by request `i`. -/
structure Rely (i : Nat) (w w' : World) : Prop where
  log : w.log <+: w'.log
  notes : w'.notes i = w.notes i

theorem Rely.refl (i : Nat) (w : World) : Rely i w w := ⟨List.prefix_refl _, rfl⟩

theorem Rely.trans {a b c : World} (h : Rely i a b) (h' : Rely i b c) : Rely i a c :=
  ⟨h.log.trans h'.log, h'.notes.trans h.notes⟩

/-- Another request's action keeps to what a request relies on. -/
theorem Move.rely (h : Move j w w') (hij : i ≠ j) : Rely i w w' := by
  rcases h.log with hlog | ⟨key, note, hlog⟩
  · exact ⟨hlog ▸ List.prefix_refl _, by rw [World.notes, World.notes, hlog]⟩
  · refine ⟨⟨_, hlog.symm⟩, ?_⟩
    rw [World.notes, World.notes, hlog, List.filter_append]
    simp [Ne.symm hij]

/-! ## The middleware keeps to the rules -/

/-- The rules for request `i`. -/
def rules (i : Nat) : Rules World := ⟨Sound, Permit, Rely i, Move i⟩

/-- Request `i` may go on with a program and ends in `Q`. -/
abbrev Walk {α : Type} (i : Nat) (p : Action α) (Q : α → World → Prop) (w : World) : Prop :=
  Go (rules i) i p Q w

/-- Request `i` may let the handler run. -/
structure MayStart (i : Nat) (key : Option Key) (w : World) : Prop where
  missed : key.isSome = true → ∃ x ∈ w.notes i, x.key = key ∧
    (x.note = .missed ∨ x.note = .lookupFailed ∨ x.note = .expired)
  fresh : ∀ x ∈ w.notes i, x.note ≠ .started ∧ ∀ s b, x.note ≠ .handled s b

theorem MayStart.rely {key : Option Key} (h : MayStart i key w) (hr : Rely i w w') :
    MayStart i key w' := ⟨hr.notes ▸ h.missed, hr.notes ▸ h.fresh⟩

/-- A request that has only looked its key up may let the handler run. -/
theorem MayStart.of_note {key : Key} {n : Note} (h : w.notes i = [])
    (hn : n = .missed ∨ n = .lookupFailed ∨ n = .expired) :
    MayStart i (some key) (w.note i (some key) n) := by
  have hnotes : (w.note i (some key) n).notes i = [⟨i, some key, n⟩] := by
    have : (w.note i (some key) n).notes i = w.notes i ++ [⟨i, some key, n⟩] := by
      simp [World.notes, World.note]
    rw [this, h]
    rfl
  refine ⟨fun _ => ⟨⟨i, some key, n⟩, by rw [hnotes]; exact List.mem_singleton.mpr rfl, rfl, hn⟩,
    fun x hx => ?_⟩
  rw [hnotes] at hx
  obtain rfl := List.mem_singleton.mp hx
  rcases hn with rfl | rfl | rfl <;> simp

/-- Something that was noted stays noted. -/
theorem Rely.mem (hr : Rely i w w') {x : Entry} (hx : x ∈ w.log) : x ∈ w'.log :=
  hr.log.subset hx

/-- **Letting the handler run.** -/
theorem runHandler_go {key : Option Key} (h : MayStart i key w) :
    Walk i (runHandler key) (fun r w' => ⟨i, key, .handled r.1 r.2⟩ ∈ w'.log) w := by
  have hstart : Walk i (Prog.request fun i w => ((), w.note i key .started) : Action Unit)
      (fun _ w' => ⟨i, key, .started⟩ ∈ w'.log ∧ ∀ x ∈ w'.notes i, ∀ s b, x.note ≠ .handled s b)
      w := by
    refine Go.request fun w₁ hr _ _ => ?_
    have h₁ := h.rely hr
    refine ⟨.note _ _ ⟨h₁.missed, fun x hx => (h₁.fresh x hx).1⟩, fun _ => ⟨by simp, ?_⟩⟩
    intro x hx s b
    obtain ⟨hx, hc⟩ := mem_notes.mp hx
    rcases mem_note.mp hx with hx | rfl
    · exact (h₁.fresh x (mem_notes.mpr ⟨hx, hc⟩)).2 s b
    · simp
  refine Go.bind_iff.mpr (hstart.mono fun _ w ⟨hs, hh⟩ => ?_)
  refine Go.lift fun w₁ hr _ c a w₂ hrun _ => ?_
  split at hrun
  · rename_i s b
    obtain ⟨rfl, rfl⟩ : (s, b) = a ∧ w₁.note i key (.handled s b) = w₂ := by simpa using hrun
    exact ⟨.note _ _ ⟨hr.mem hs, hr.notes ▸ hh⟩, fun _ => by simp⟩
  · cases hrun

/-- Sending a response that a handler gave. -/
theorem respond_go {key : Option Key} {s : Nat} {b : Option Body} {R : World → Prop}
    (h : ∃ j, ⟨j, key, .handled s b⟩ ∈ w.log) (hR : R w)
    (hlog : ∀ {w w'}, w.log <+: w'.log → R w → R w') :
    Walk i (respond key s b) (fun _ w' => R w') w := by
  refine Go.request fun w₁ hr _ _ => ?_
  obtain ⟨j, hj⟩ := h
  exact ⟨.note _ _ ⟨j, hr.mem hj⟩, fun _ =>
    hlog ⟨_, rfl⟩ (hlog hr.log hR)⟩

/-- Storing a response that the handler gave. -/
theorem persist_go {key : Key} {s : Nat} {b : Body}
    (h : ⟨i, some key, .handled s (some b)⟩ ∈ w.log) :
    Walk i (persist key s b) (fun _ _ => True) w := by
  refine Go.bind_iff.mpr (Go.query (fun _ => .idle) fun w₁ hr _ => ?_)
  refine Go.lift fun w₂ hr' _ c a w₃ hrun _ => ?_
  split at hrun
  · obtain rfl : w₂ = w₃ := by simpa using hrun
    exact ⟨.idle, fun _ => trivial⟩
  · obtain rfl := congrArg Prod.snd (Option.some.inj hrun)
    exact ⟨.store _ _ _ _ (hr'.mem (hr.mem h)), fun _ => trivial⟩

/-- **Handling a request** that found no stored response. -/
theorem handle_go {key : Key} (h : MayStart i (some key) w) :
    Walk i (handle key) (fun _ _ => True) w := by
  refine Go.bind_iff.mpr ((runHandler_go h).mono fun r w hr => ?_)
  refine Go.bind_iff.mpr ((respond_go ⟨i, hr⟩ hr fun hlog hx => hlog.subset hx).mono
    fun _ w hr => ?_)
  split
  · trivial
  · split
    · trivial
    · rename_i b hb
      rw [hb] at hr
      exact persist_go hr

/-- What a request knows once it has looked its key up. -/
def LookedUp (i : Nat) (key : Key) (w : World) : Option InboundIdempotency → Prop
  | some row => w.notes i = [] ∧ row.key = key ∧
      ∃ j, ⟨j, some row.key, .handled row.httpStatus (some row.responseBody)⟩ ∈ w.log
  | none => MayStart i (some key) w

/-- **One request.** -/
theorem idempotency_go (h : w.notes i = []) : Walk i (idempotency k) (fun _ _ => True) w := by
  have hstable : ∀ {w w'}, Rely i w w' → w.notes i = [] → w'.notes i = [] :=
    fun hr h => hr.notes.trans h
  unfold idempotency
  split
  · rename_i operatorId requestUuid _ _
    have hlookup : Walk i (lookup ⟨operatorId, requestUuid, k.endpointTag⟩)
        (fun existing w' => LookedUp i ⟨operatorId, requestUuid, k.endpointTag⟩ w' existing) w := by
      refine Go.lift fun w₁ hr hs c a w₂ hrun _ => ?_
      have h₁ := hstable hr h
      split at hrun
      · obtain ⟨rfl, rfl⟩ : none = a ∧ _ = w₂ := by simpa using hrun
        exact ⟨.note _ _ trivial, fun _ => .of_note h₁ (.inr (.inl rfl))⟩
      · split at hrun
        · rename_i row hrow
          obtain ⟨rfl, rfl⟩ : some row = a ∧ w₁ = w₂ := by simpa using hrun
          have hkey := List.find?_some hrow
          exact ⟨.idle, fun _ => ⟨h₁, by simpa using hkey,
            hs.records row (List.mem_of_find?_eq_some hrow)⟩⟩
        · rename_i hrow
          obtain ⟨rfl, rfl⟩ : none = a ∧ _ = w₂ := by simpa using hrun
          refine ⟨.note _ _ fun r hr hk => ?_, fun _ => .of_note h₁ (.inl rfl)⟩
          have := List.find?_eq_none.mp hrow r hr
          simp [Option.some.inj hk] at this
    refine Go.bind_iff.mpr (hlookup.mono fun existing w hx => ?_)
    cases existing with
    | none => exact handle_go hx
    | some row =>
        obtain ⟨hnotes, hkey, j, hj⟩ := hx
        have hfresh : Walk i (fresh row) (fun isFresh w' =>
            ⟨j, some row.key, .handled row.httpStatus (some row.responseBody)⟩ ∈ w'.log ∧
              (isFresh = false → MayStart i (some row.key) w')) w := by
          refine Go.lift fun w₁ hr _ c a w₂ hrun _ => ?_
          by_cases hlt : w₁.now < row.expiresAt
          · obtain ⟨rfl, rfl⟩ : true = a ∧ w₁ = w₂ := by simpa [hlt] using hrun
            exact ⟨.idle, fun _ => ⟨hr.mem hj, fun hf => by cases hf⟩⟩
          · obtain ⟨rfl, rfl⟩ : false = a ∧ w₁.note i row.key .expired = w₂ := by
              simpa [hlt] using hrun
            exact ⟨.note _ _ trivial, fun _ => ⟨mem_note.mpr (.inl (hr.mem hj)), fun _ =>
              .of_note (hstable hr hnotes) (.inr (.inr rfl))⟩⟩
        refine Go.bind_iff.mpr (hfresh.mono fun isFresh w h => ?_)
        obtain ⟨hj, hmay⟩ := h
        rw [hkey] at hj hmay
        cases isFresh with
        | true => exact respond_go ⟨j, hj⟩ trivial fun _ h => h
        | false => exact handle_go (hmay rfl)
  · refine Go.bind_iff.mpr ((runHandler_go ⟨by simp, fun x hx => ?_⟩).mono
      fun r w hr => ?_)
    · rw [h] at hx
      cases hx
    · exact respond_go ⟨i, hr⟩ trivial fun _ h => h

/-! ## Runs -/

/-- **The handler runs at most once under a key, and every request is answered what it answered.** -/
structure World.HandledOnce (w : World) : Prop where
  once : ∀ (m n : Nat) (x y : Entry), w.log[m]? = some x → w.log[n]? = some y →
    x.note = .started → y.note = .started → x.key = y.key → x.key.isSome = true → m = n
  same : ∀ x ∈ w.log, ∀ y ∈ w.log, ∀ s b s' b', x.note = .answered s b → y.note = .handled s' b' →
    x.key = y.key → x.key.isSome = true → s = s' ∧ b = b'
  given : ∀ x ∈ w.log, ∀ s b, x.note = .answered s b → ∃ j, ⟨j, x.key, .handled s b⟩ ∈ w.log

/-- The invariant gives the property. -/
theorem Sound.handledOnce' (hw : Sound w) : w.HandledOnce where
  once m n x y hx hy hxs hys hk hsome := by
    have hcaller := hw.missed _ (hw.started x (List.mem_of_getElem? hx) hxs hsome) _
      (hw.started y (List.mem_of_getElem? hy) hys (hk ▸ hsome)) rfl rfl hk
    exact hw.startedOnce m n x y hx hy hxs hys hcaller
  same x hx y hy s b s' b' hxs hys hk hsome := by
    obtain ⟨j, hj⟩ := hw.answered x hx s b hxs
    have hstarted := hw.handled _ hj s b rfl
    have hcaller := hw.missed _ (hw.started _ hstarted rfl hsome) _
      (hw.started _ (hw.handled y hy s' b' hys) rfl (hk ▸ hsome)) rfl rfl hk
    exact hw.handledOnce _ hj y hy s b s' b' rfl hys hcaller
  given := hw.answered

/-- **The condition on a step of a run.** -/
def Settled (p : State) (_ : Happening) (q : State) : Prop := Permit p.world q.world

instance (p : State) (x : Happening) (q : State) : Decidable (Settled p x q) :=
  inferInstanceAs (Decidable (∀ x ∈ q.world.log.drop p.world.log.length, x.note ≠ .lookupFailed ∧
    x.note ≠ .expired ∧ (x.note = .missed → ∀ y ∈ p.world.log, y.key = x.key → y.note = .missed →
      ⟨y.caller, y.key, .stored⟩ ∈ p.world.log)))

/-- Only calls that were made are noted. -/
def Called (p : State) : Prop := ∀ x ∈ p.world.log, x.caller < p.tasks.length

/-- **The rules of all requests fit together.** -/
def conduct : Discipline inbound fun p x q => Settled p x q ∧ Called p where
  inv := Sound
  permit _ _ := Permit
  envPermit _ _ _ := True
  envFits _ _ _ _ := True
  compat _ _ := True
  rely i _ := Rely i
  guar i _ := Move i
  permit_of h _ := h.1
  envPermit_of _ := trivial
  envFits_of _ _ _ _ := trivial
  compat_of _ _ _ _ _ := ⟨trivial, trivial⟩
  rely_refl i _ := Rely.refl i
  rely_trans _ _ _ _ _ := Rely.trans
  guar_inv hw hp h := hw.move hp h
  env_inv {e w w'} hw _ h := by
    cases e
    obtain rfl : _ = w' := by simpa [inbound] using h
    exact { hw with }
  guar_rely hij _ _ _ h := h.rely hij
  env_rely {i k e w w'} _ _ _ h _ := by
    cases e
    obtain rfl : _ = w' := by simpa [inbound] using h
    exact ⟨List.prefix_refl _, rfl⟩
  code_go {p k q} h _ _ := by
    refine idempotency_go (List.filter_eq_nil_iff.mpr fun x hx => ?_)
    have := h.2 x hx
    simp only [decide_eq_true_eq]
    omega

/-- **The runs the property is asked of**: the database works, no stored response is too old, and
handlers answer a body below status 500. -/
def Working (_ : State) (x : Happening) (q : State) : Prop :=
  (∀ y ∈ q.world.log, y.note ≠ .lookupFailed ∧ y.note ≠ .expired) ∧
    match x with
    | .run _ .fail => False
    | .run _ (.handled s b) => s < 500 ∧ b.isSome = true
    | .kill _ => False
    | _ => True

instance (p : State) (x : Happening) (q : State) : Decidable (Working p x q) :=
  match x with
  | .run _ .fail | .kill _ =>
      inferInstanceAs (Decidable ((∀ y ∈ q.world.log, _) ∧ False))
  | .run _ (.handled s b) =>
      inferInstanceAs (Decidable ((∀ y ∈ q.world.log, _) ∧ s < 500 ∧ b.isSome = true))
  | .run _ .ok | .call _ | .env _ => inferInstanceAs (Decidable ((∀ y ∈ q.world.log, _) ∧ True))

namespace Sample

/-- A request of operator `7` under the uuid `a`. -/
def request : Request := ⟨some 7, some "a", "session.create"⟩

/-- Request `i` is let through to its handler, which answers, and the response is stored. -/
def served (i : Nat) (body : Body) : List Happening :=
  [.run i .ok, .run i .ok, .run i (.handled 201 (some body)), .run i .ok, .run i .ok, .run i .ok]

/-- Two requests, one after the other. -/
def inTurn : List Happening :=
  .call request :: served 0 "first" ++ [.call request, .run 1 .ok, .run 1 .ok, .run 1 .ok]

/-- Two requests that both look up before either response is stored. -/
def together : List Happening :=
  .call request :: .call request :: .run 1 .ok :: served 0 "first" ++
    (served 1 "second").tail

end Sample

end YantraRgs.Idempotency
