import YantraRgs.Wallet.InternalAdapter

/-! # The books of the internal wallet

Which transactions took effect is a log with reversals; the balances are kept right as long as no
identifier is used again after its transaction was rolled back, and every rollback names the player of
the transaction it takes back.

* **`Adapter.log`** — the transactions of a run that took effect.
* **`Sound`** — the balances are the seeds and what stands; no identifier changes a balance twice; a
  rollback changes the balance of its transaction's player alone.
* **`sound_of_calm`** — the runs that keep the books. -/

namespace YantraRgs.InternalWallet

open Reversals

namespace Call

/-- The request of a call. -/
def request : Call → Request
  | .balance req => req
  | .bet req _ _ => req
  | .win req _ _ => req
  | .rollback req _ _ => req

/-- The transaction of a call. -/
def transactionUuid : Call → Option Text
  | .balance _ => none
  | .bet _ uuid _ => some uuid
  | .win _ uuid _ => some uuid
  | .rollback _ uuid _ => some uuid

/-- What a call books where it takes effect. -/
def entry : Call → Option (Entry Text (Player → Int))
  | .balance _ => none
  | .bet req uuid amountMicro => some ⟨uuid, .inl (Pi.single req.player (-amountMicro))⟩
  | .win req uuid amountMicro => some ⟨uuid, .inl (Pi.single req.player amountMicro)⟩
  | .rollback _ uuid referenceTransactionUuid => some ⟨uuid, .inr referenceTransactionUuid⟩

theorem map_name_entry (c : Call) : c.entry.map Entry.name = c.transactionUuid := by
  cases c <;> rfl

end Call

namespace Adapter

variable (a : Adapter)

/-- **A transaction takes effect** where it is answered with a success. -/
def Accepts (c : Call) : Prop := (a.serve c).2.status = .ok ∧ c.entry.isSome

instance (c : Call) : Decidable (a.Accepts c) :=
  inferInstanceAs (Decidable (_ ∧ _))

/-- The calls of a run that took effect, the latest one first. -/
def accepted : List Call → List Call
  | [] => []
  | c :: past => if (a.after past).Accepts c then c :: accepted past else accepted past

/-- **The log of a run**: the transactions that took effect. -/
def log (calls : List Call) : List (Entry Text (Player → Int)) :=
  (a.accepted calls).filterMap Call.entry

/-- Whether a call changes a balance. -/
def Changes (c : Call) : Prop := ∃ p, (a.serve c).1.balanceOf p ≠ a.balanceOf p

/-- A refused call changes nothing. -/
theorem idle_of_refused {c : Call} {req : Request} {status : RsStatus} (hstatus : status ≠ .ok)
    (h : a.serve c = (a.getOrCreate req, a.answer status req)) :
    ¬ a.Accepts c ∧ (a.serve c).1.balanceOf = a.balanceOf ∧
      (a.serve c).1.committedTxs = a.committedTxs := by
  rw [Accepts, h]
  exact ⟨fun haccepts => hstatus haccepts.1, a.balanceOf_getOrCreate req, rfl⟩

/-- **What a call does**: nothing to balances and transactions; or it books an amount; or it takes a
transaction back. -/
theorem serve_cases (c : Call) :
    (¬ a.Accepts c ∧ (a.serve c).1.balanceOf = a.balanceOf ∧
      (a.serve c).1.committedTxs = a.committedTxs) ∨
    (a.Accepts c ∧ ∃ uuid tx, a.committedTxs uuid = none ∧
      c.entry = some ⟨uuid, .inl (Pi.single c.request.player tx.delta)⟩ ∧
        (a.serve c).1 = a.book c.request uuid tx) ∨
    (a.Accepts c ∧ ∃ uuid ref tx, a.committedTxs ref = some tx ∧ a.committedTxs uuid = none ∧
      c = .rollback c.request uuid ref ∧
        (a.serve c).1 = (a.book c.request uuid ⟨.rollback, -tx.delta⟩).forget ref) := by
  cases c with
  | balance req =>
      refine Or.inl ⟨fun h => ?_, a.balanceOf_getOrCreate req, rfl⟩
      cases h.2
  | bet req uuid amountMicro =>
      by_cases hdup : (a.committedTxs uuid).isSome = true
      · exact Or.inl (a.idle_of_refused (by decide) (if_pos hdup))
      · by_cases hlow : (a.row req).balance < amountMicro
        · exact Or.inl (a.idle_of_refused (by decide) ((if_neg hdup).trans (if_pos hlow)))
        · have hserve : a.serve (.bet req uuid amountMicro) =
              (a.book req uuid ⟨.bet, -amountMicro⟩,
                (a.book req uuid ⟨.bet, -amountMicro⟩).answer .ok req) :=
            (if_neg hdup).trans (if_neg hlow)
          rw [Accepts, hserve]
          exact Or.inr (Or.inl ⟨⟨rfl, rfl⟩, uuid, ⟨.bet, -amountMicro⟩,
            Option.not_isSome_iff_eq_none.mp hdup, rfl, rfl⟩)
  | win req uuid amountMicro =>
      by_cases hdup : (a.committedTxs uuid).isSome = true
      · exact Or.inl (a.idle_of_refused (by decide) (if_pos hdup))
      · have hserve : a.serve (.win req uuid amountMicro) =
            (a.book req uuid ⟨.win, amountMicro⟩, (a.book req uuid ⟨.win, amountMicro⟩).answer .ok req) :=
          if_neg hdup
        rw [Accepts, hserve]
        exact Or.inr (Or.inl ⟨⟨rfl, rfl⟩, uuid, ⟨.win, amountMicro⟩,
          Option.not_isSome_iff_eq_none.mp hdup, rfl, rfl⟩)
  | rollback req uuid ref =>
      rcases href : a.committedTxs ref with _ | tx
      · have hserve : a.serve (.rollback req uuid ref) = (a, ⟨.transactionNotFound, req.requestUuid, none,
            none, some "unknown_reference_transaction"⟩) := by
          simp only [serve, href]
        have hstatus : RsStatus.transactionNotFound ≠ .ok := by decide
        rw [Accepts, hserve]
        exact Or.inl ⟨fun h => hstatus h.1, rfl, rfl⟩
      · by_cases hdup : (a.committedTxs uuid).isSome = true
        · have hserve : a.serve (.rollback req uuid ref) =
              (a.getOrCreate req, a.answer .duplicateTransaction req) := by
            simp only [serve, href, if_pos hdup]
          exact Or.inl (a.idle_of_refused (by decide) hserve)
        · have hserve : a.serve (.rollback req uuid ref) =
              ((a.book req uuid ⟨.rollback, -tx.delta⟩).forget ref,
                ((a.book req uuid ⟨.rollback, -tx.delta⟩).forget ref).answer .ok req) := by
            simp only [serve, href, if_neg hdup]
          rw [Accepts, hserve]
          exact Or.inr (Or.inr ⟨⟨rfl, rfl⟩, uuid, ref, tx, href,
            Option.not_isSome_iff_eq_none.mp hdup, rfl, rfl⟩)

/-- Only a transaction that takes effect changes a balance. -/
theorem accepts_of_changes {c : Call} (h : a.Changes c) : a.Accepts c := by
  obtain ⟨p, hp⟩ := h
  rcases a.serve_cases c with ⟨-, hbalance, -⟩ | ⟨haccepts, -⟩ | ⟨haccepts, -⟩
  · rw [hbalance] at hp
    exact absurd rfl hp
  · exact haccepts
  · exact haccepts

/-- Whether a call is as it should be, after some others: no transaction that takes effect carries the
identifier of one that was rolled back, and a rollback names the player of its transaction. -/
def Proper (past : List Call) : Call → Prop
  | .balance _ => True
  | .bet req uuid amountMicro =>
      amountMicro ≤ (a.after past).balanceOf req.player → uuid ∉ reversed (a.log past)
  | .win _ uuid _ => uuid ∉ reversed (a.log past)
  | .rollback req uuid ref => ((a.after past).committedTxs ref).isSome →
      uuid ∉ reversed (a.log past) ∧
        ∀ c ∈ a.accepted past, c.transactionUuid = some ref → c.request.player = req.player

/-- **A calm run**: every call is as it should be. -/
def Calm : List Call → Prop
  | [] => True
  | c :: past => Calm past ∧ a.Proper past c

/-- **The books are kept**: the balances are the seeds and what stands; no identifier changes a balance
twice; and a rollback changes only the balance of the player whose transaction it takes back. -/
structure Sound (calls : List Call) : Prop where
  totals : ∀ p, (a.after calls).balanceOf p = a.balanceOf p + total [] (a.log calls) p
  once : ∀ c later c' earlier uuid, c :: later <:+ calls → c' :: earlier <:+ later →
    c.transactionUuid = some uuid → c'.transactionUuid = some uuid →
      (a.after earlier).Changes c' → ¬ (a.after later).Changes c
  own : ∀ req uuid ref past, .rollback req uuid ref :: past <:+ calls → ∀ p,
    (a.after (.rollback req uuid ref :: past)).balanceOf p ≠ (a.after past).balanceOf p →
      ∃ c ∈ a.accepted past, c.transactionUuid = some ref ∧ c.request.player = p

theorem log_cons (c : Call) (past : List Call) : a.log (c :: past) =
    if (a.after past).Accepts c then c.entry.toList ++ a.log past else a.log past := by
  rw [log, accepted]
  split
  · rw [List.filterMap_cons]
    cases c.entry <;> rfl
  · rfl

/-- The names in the log are the transactions of the calls that took effect. -/
theorem mem_names_log {calls : List Call} {uuid : Text} :
    uuid ∈ names (a.log calls) ↔ ∃ c ∈ a.accepted calls, c.transactionUuid = some uuid := by
  rw [names, log, List.map_filterMap, List.mem_filterMap]
  simp only [Call.map_name_entry]

/-- **What the wallet knows of its log**: the transactions that it keeps are those that are not rolled
back, each with its effect. -/
structure Kept (calls : List Call) : Prop where
  balances : (a.after calls).balanceOf = a.balanceOf + total [] (a.log calls)
  wellFormed : WellFormed (a.log calls)
  committed : ∀ uuid tx, (a.after calls).committedTxs uuid = some tx →
    uuid ∉ reversed (a.log calls) ∧ ∃ c ∈ a.accepted calls, c.transactionUuid = some uuid ∧
      effect (a.log calls) uuid = Pi.single c.request.player tx.delta
  absent : ∀ uuid, (a.after calls).committedTxs uuid = none → uuid ∈ names (a.log calls) →
    uuid ∈ reversed (a.log calls)

/-- A bet that takes effect is covered. -/
theorem le_of_accepts_bet {req : Request} {uuid : Text} {amountMicro : Int}
    (h : a.Accepts (.bet req uuid amountMicro)) (hfree : a.committedTxs uuid = none) :
    amountMicro ≤ a.balanceOf req.player := by
  by_contra hlow
  have hdup : ¬ (a.committedTxs uuid).isSome = true := by
    rw [hfree]
    decide
  rw [← balance_row, not_le] at hlow
  have hserve : a.serve (.bet req uuid amountMicro) =
      (a.getOrCreate req, a.answer .notEnoughMoney req) := (if_neg hdup).trans (if_pos hlow)
  exact (a.idle_of_refused (by decide) hserve).1 h

/-- A proper transaction that takes effect carries a new identifier. -/
theorem new_of_proper {past : List Call} {c : Call} {uuid : Text} (hkept : a.Kept past)
    (hproper : a.Proper past c) (haccepts : (a.after past).Accepts c)
    (huuid : c.transactionUuid = some uuid) (hfree : (a.after past).committedTxs uuid = none) :
    uuid ∉ names (a.log past) ∧ uuid ∉ reversed (a.log past) := by
  have hreversed : uuid ∉ reversed (a.log past) := by
    cases c with
    | balance req => cases huuid
    | bet req uuid' amountMicro =>
        obtain rfl := Option.some.inj huuid
        exact hproper ((a.after past).le_of_accepts_bet haccepts hfree)
    | win req uuid' amountMicro =>
        obtain rfl := Option.some.inj huuid
        exact hproper
    | rollback req uuid' ref =>
        obtain rfl := Option.some.inj huuid
        refine (hproper (Option.isSome_iff_ne_none.mpr fun hnone => ?_)).1
        have hstatus : RsStatus.transactionNotFound ≠ .ok := by decide
        have hserve : (a.after past).serve (.rollback req uuid' ref) = (a.after past,
            ⟨.transactionNotFound, req.requestUuid, none, none, some "unknown_reference_transaction"⟩) := by
          simp only [serve, hnone]
        rw [Accepts, hserve] at haccepts
        exact hstatus haccepts.1
  exact ⟨fun hname => hreversed (hkept.absent uuid hfree hname), hreversed⟩

/-- A call that takes no effect leaves the log. -/
theorem kept_of_idle {past : List Call} {c : Call} (hkept : a.Kept past)
    (hnot : ¬ (a.after past).Accepts c)
    (hbalance : ((a.after past).serve c).1.balanceOf = (a.after past).balanceOf)
    (htxs : ((a.after past).serve c).1.committedTxs = (a.after past).committedTxs) :
    a.Kept (c :: past) := by
  have hlog : a.log (c :: past) = a.log past := by rw [log_cons, if_neg hnot]
  have haccepted : a.accepted (c :: past) = a.accepted past := if_neg hnot
  constructor
  · rw [hlog, ← hkept.balances]
    exact hbalance
  · rw [hlog]
    exact hkept.wellFormed
  · intro uuid tx htx
    rw [hlog, haccepted]
    exact hkept.committed uuid tx ((congrFun htxs uuid).symm.trans htx)
  · intro uuid hnone
    rw [hlog]
    exact hkept.absent uuid ((congrFun htxs uuid).symm.trans hnone)

/-- **An amount** is booked under a new identifier. -/
theorem kept_of_amount {past : List Call} {c : Call} (hkept : a.Kept past)
    (haccepts : (a.after past).Accepts c) {uuid : Text} {tx : Committed}
    (hnew : uuid ∉ names (a.log past) ∧ uuid ∉ reversed (a.log past))
    (hentry : c.entry = some ⟨uuid, .inl (Pi.single c.request.player tx.delta)⟩)
    (hserve : ((a.after past).serve c).1 = (a.after past).book c.request uuid tx) :
    a.Kept (c :: past) := by
  have hlog : a.log (c :: past) =
      ⟨uuid, .inl (Pi.single c.request.player tx.delta)⟩ :: a.log past := by
    rw [log_cons, if_pos haccepts, hentry]
    rfl
  have haccepted : a.accepted (c :: past) = c :: a.accepted past := if_pos haccepts
  have hname : c.transactionUuid = some uuid := by
    rw [← Call.map_name_entry, hentry]
    rfl
  have htxs : (a.after (c :: past)).committedTxs =
      Function.update (a.after past).committedTxs uuid (some tx) := by
    rw [after, hserve, committedTxs_book]
  constructor
  · rw [after, hserve, balanceOf_book, hlog, total_amount, hkept.balances]
    abel
  · rw [hlog]
    exact ⟨hkept.wellFormed, hnew.1, fun i hi => by cases hi⟩
  · intro uuid' tx' htx
    rw [htxs, Function.update_apply] at htx
    rw [hlog, haccepted, reversed_cons, effect]
    by_cases heq : uuid' = uuid
    · subst heq
      rw [if_pos rfl] at htx
      obtain rfl := Option.some.inj htx
      refine ⟨hnew.2, c, List.mem_cons_self, hname, ?_⟩
      rw [if_pos rfl]
      rfl
    · rw [if_neg heq] at htx
      obtain ⟨hopen, d, hd, hdname, heffect⟩ := hkept.committed uuid' tx' htx
      refine ⟨hopen, d, List.mem_cons_of_mem c hd, hdname, ?_⟩
      rw [if_neg (Ne.symm heq)]
      exact heffect
  · intro uuid' hnone hmem
    rw [htxs, Function.update_apply] at hnone
    rw [hlog] at hmem ⊢
    by_cases heq : uuid' = uuid
    · rw [if_pos heq] at hnone
      cases hnone
    · rw [if_neg heq] at hnone
      exact hkept.absent uuid' hnone ((List.mem_cons.mp hmem).resolve_left heq)

/-- **A rollback** takes the effect of its transaction out of the books. -/
theorem kept_of_rollback {past : List Call} {req : Request} {uuid ref : Text} {tx : Committed}
    (hkept : a.Kept past) (haccepts : (a.after past).Accepts (.rollback req uuid ref))
    (hnew : uuid ∉ names (a.log past) ∧ uuid ∉ reversed (a.log past))
    (hown : ∀ c ∈ a.accepted past, c.transactionUuid = some ref → c.request.player = req.player)
    (href : (a.after past).committedTxs ref = some tx)
    (hserve : ((a.after past).serve (.rollback req uuid ref)).1 =
      ((a.after past).book req uuid ⟨.rollback, -tx.delta⟩).forget ref) :
    a.Kept (.rollback req uuid ref :: past) := by
  obtain ⟨hopen, d, hd, hdname, heffect⟩ := hkept.committed ref tx href
  rw [hown d hd hdname] at heffect
  have hbooked : ref ∈ names (a.log past) := a.mem_names_log.mpr ⟨d, hd, hdname⟩
  have hne : uuid ≠ ref := fun heq => hnew.1 (heq ▸ hbooked)
  have hlog : a.log (.rollback req uuid ref :: past) = ⟨uuid, .inr ref⟩ :: a.log past := by
    rw [log_cons, if_pos haccepts]
    rfl
  have haccepted : a.accepted (.rollback req uuid ref :: past) =
      .rollback req uuid ref :: a.accepted past := if_pos haccepts
  have htxs : (a.after (.rollback req uuid ref :: past)).committedTxs = Function.update
      (Function.update (a.after past).committedTxs uuid (some ⟨.rollback, -tx.delta⟩)) ref none := by
    rw [after, hserve]
    rfl
  constructor
  · rw [after, hserve, balanceOf_forget, balanceOf_book, hlog,
      total_reversal hkept.wellFormed hbooked hopen, hkept.balances, heffect, Pi.single_neg]
    abel
  · rw [hlog]
    refine ⟨hkept.wellFormed, hnew.1, fun i hi => ?_⟩
    obtain rfl := Option.some.inj hi
    exact ⟨hbooked, hopen⟩
  · intro uuid' tx' htx
    rw [htxs, Function.update_apply, Function.update_apply] at htx
    rw [hlog, haccepted, reversed_cons, effect]
    by_cases hforgot : uuid' = ref
    · rw [if_pos hforgot] at htx
      cases htx
    · rw [if_neg hforgot] at htx
      by_cases heq : uuid' = uuid
      · subst heq
        rw [if_pos rfl] at htx
        obtain rfl := Option.some.inj htx
        refine ⟨?_, _, List.mem_cons_self, rfl, ?_⟩
        · exact fun hmem => (List.mem_cons.mp hmem).elim hforgot hnew.2
        · rw [if_pos rfl, Pi.single_neg]
          exact congrArg Neg.neg heffect
      · rw [if_neg heq] at htx
        obtain ⟨hopen', e, he, hename, heffect'⟩ := hkept.committed uuid' tx' htx
        refine ⟨fun hmem => (List.mem_cons.mp hmem).elim hforgot hopen', e,
          List.mem_cons_of_mem _ he, hename, ?_⟩
        rw [if_neg (Ne.symm heq)]
        exact heffect'
  · intro uuid' hnone hmem
    rw [htxs, Function.update_apply, Function.update_apply] at hnone
    rw [hlog] at hmem ⊢
    rw [reversed_cons]
    by_cases hforgot : uuid' = ref
    · exact List.mem_append_left _ (List.mem_singleton.mpr hforgot)
    · rw [if_neg hforgot] at hnone
      by_cases heq : uuid' = uuid
      · rw [if_pos heq] at hnone
        cases hnone
      · rw [if_neg heq] at hnone
        exact List.mem_append_right _
          (hkept.absent uuid' hnone ((List.mem_cons.mp hmem).resolve_left heq))

/-- **A calm run** keeps what the wallet knows. -/
theorem kept_of_calm (hfree : ∀ uuid, a.committedTxs uuid = none) {calls : List Call}
    (hcalm : a.Calm calls) : a.Kept calls := by
  induction calls with
  | nil =>
      refine ⟨(add_zero _).symm, trivial, fun uuid tx htx => ?_, fun uuid _ hmem => by cases hmem⟩
      rw [after, hfree uuid] at htx
      cases htx
  | cons c past ih =>
      have hkept := ih hcalm.1
      rcases (a.after past).serve_cases c with ⟨hnot, hbalance, htxs⟩ | ⟨haccepts, uuid, tx, hfree', hentry,
        hserve⟩ | ⟨haccepts, uuid, ref, tx, href, hfree', hc, hserve⟩
      · exact a.kept_of_idle hkept hnot hbalance htxs
      · have hname : c.transactionUuid = some uuid := by
          rw [← Call.map_name_entry, hentry]
          rfl
        exact a.kept_of_amount hkept haccepts (a.new_of_proper hkept hcalm.2 haccepts hname hfree') hentry
          hserve
      · rw [hc] at hcalm haccepts hserve ⊢
        exact a.kept_of_rollback hkept haccepts (a.new_of_proper hkept hcalm.2 haccepts rfl hfree')
          (hcalm.2 (Option.isSome_iff_exists.mpr ⟨tx, href⟩)).2 href hserve

/-- The names in the log of a run stay in it. -/
theorem names_log_subset {later calls : List Call} (h : later <:+ calls) :
    names (a.log later) ⊆ names (a.log calls) := by
  obtain ⟨front, rfl⟩ := h
  induction front with
  | nil => exact fun _ hmem => hmem
  | cons c front ih =>
      intro uuid hmem
      rw [List.cons_append, log_cons]
      split
      · rw [names, List.map_append]
        exact List.mem_append_right _ (ih hmem)
      · exact ih hmem

/-- Every part of a calm run is calm. -/
theorem Calm.of_suffix {a : Adapter} {later calls : List Call} (hcalm : a.Calm calls)
    (h : later <:+ calls) : a.Calm later := by
  obtain ⟨front, rfl⟩ := h
  induction front with
  | nil => exact hcalm
  | cons c front ih => exact ih hcalm.1

/-- A call that changes a balance stands in the log under its transaction. -/
theorem mem_names_of_changes {c : Call} {past : List Call} {uuid : Text}
    (h : (a.after past).Changes c) (hname : c.transactionUuid = some uuid) :
    uuid ∈ names (a.log (c :: past)) := by
  have haccepts := (a.after past).accepts_of_changes h
  refine a.mem_names_log.mpr ⟨c, ?_, hname⟩
  rw [accepted, if_pos haccepts]
  exact List.mem_cons_self

/-- **In a calm run the books are kept.** -/
theorem sound_of_calm (seeds : List Seed) {calls : List Call} (hcalm : (ofSeeds seeds).Calm calls) :
    (ofSeeds seeds).Sound calls := by
  have hkept : ∀ later, later <:+ calls → (ofSeeds seeds).Kept later := fun later h =>
    (ofSeeds seeds).kept_of_calm (committedTxs_ofSeeds seeds) (hcalm.of_suffix h)
  refine ⟨fun p => congrFun (hkept calls List.suffix_rfl).balances p, ?_, ?_⟩
  · intro c later c' earlier uuid hc hc' hname hname' hchanges' hchanges
    -- the earlier call is in the log, so the later one does not carry a new name
    have hmem := (ofSeeds seeds).names_log_subset hc' ((ofSeeds seeds).mem_names_of_changes hchanges' hname')
    have hwell := (hkept _ hc).wellFormed
    have haccepts := ((ofSeeds seeds).after later).accepts_of_changes hchanges
    rw [log_cons, if_pos haccepts] at hwell
    obtain ⟨e, he, hename⟩ := Option.map_eq_some_iff.mp ((Call.map_name_entry c).trans hname)
    rw [he] at hwell
    exact hwell.2.1 (hename ▸ hmem)
  · intro req uuid ref past hsuffix p hchanges
    have hpast : past <:+ calls := (List.suffix_cons _ _).trans hsuffix
    have hproper := (hcalm.of_suffix hsuffix).2
    rcases ((ofSeeds seeds).after past).serve_cases (.rollback req uuid ref) with ⟨-, hbalance, -⟩ |
      ⟨-, uuid', tx, -, hentry, -⟩ | ⟨-, uuid', ref', tx, href, -, hc, hserve⟩
    · exact absurd (congrFun hbalance p) hchanges
    · cases hentry
    · obtain ⟨rfl, rfl⟩ : uuid = uuid' ∧ ref = ref' := by
        injection hc with _ huuid href'
        exact ⟨huuid, href'⟩
      obtain ⟨-, d, hd, hdname, -⟩ := (hkept past hpast).committed ref tx href
      refine ⟨d, hd, hdname, ?_⟩
      rw [(hproper (Option.isSome_iff_exists.mpr ⟨tx, href⟩)).2 d hd hdname]
      by_contra hother
      -- a rollback books on the player of its request
      have helse : p ≠ (Call.rollback req uuid ref).request.player := Ne.symm hother
      refine hchanges ?_
      rw [after, hserve, balanceOf_forget, balanceOf_book, Pi.add_apply, Pi.single_eq_of_ne helse,
        add_zero]

end Adapter

/-! ## Runs -/

/-- A player with a hundred micro units. -/
def samplePlayer : Player := ⟨⟨['1'], by decide⟩, ['a']⟩

/-- Requests of the player. -/
def sampleRequest : Request := ⟨['r'], samplePlayer, ['E', 'U', 'R']⟩

/-- A bet that is rolled back, and sent again. -/
def sentAgain : List Call :=
  [.bet sampleRequest ['t'] 10, .rollback sampleRequest ['u'] ['t'], .bet sampleRequest ['t'] 10]

namespace Adapter

/-- A bet and its rollback keep the books. -/
theorem sound_of_rollback : (ofSeeds [⟨samplePlayer, ['E', 'U', 'R'], 100⟩]).Sound sentAgain.tail :=
  sound_of_calm _ ⟨⟨trivial, fun _ => by decide +kernel⟩, fun _ => ⟨by decide +kernel, by decide +kernel⟩⟩

/-- A bet that was rolled back and is sent again takes the stake twice under one identifier. -/
theorem not_sound_of_sentAgain : ¬ ∀ seeds calls, (ofSeeds seeds).Sound calls := by
  intro h
  have honce := (h [⟨samplePlayer, ['E', 'U', 'R'], 100⟩] sentAgain).once _ _ _ _ ['t'] List.suffix_rfl
    (List.suffix_cons _ _) rfl rfl
  exact honce ⟨samplePlayer, by decide +kernel⟩ ⟨samplePlayer, by decide +kernel⟩

end Adapter

end YantraRgs.InternalWallet
