import YantraRgs.Socket.PlaceBet

/-! # What comes in as a bet

A bet is to be refused unless its amount is an integer, and then to be placed for that amount. The
handler rounds numbers, reads texts as the language does, and catches nothing of what that throws.

* **`sentInteger`** — the integer that an amount is.
* **`HandlesBet`** — what is to be said of a bet.
* **`Convertible`** — the bets for which that holds; **`handlesBet_iff`**. -/

namespace YantraRgs.Socket

/-! ## Amounts -/

/-- A text is looked through, not the alphabet. -/
local instance decidableBAllChar {p : Char → Prop} [DecidablePred p] (cs : List Char) :
    Decidable (∀ c ∈ cs, p c) :=
  List.decidableBAll p cs

/-- The number that decimal digits show. -/
def naturalText (cs : List Char) : Option Nat :=
  if cs ≠ [] ∧ ∀ c ∈ cs, c.isDigit = true then some (Nat.ofDigitChars 10 cs 0) else none

/-- The integer that a sign and decimal digits show; the sign may be missing. -/
def decimalText : List Char → Option Int
  | '-' :: cs => (naturalText cs).map fun n => -Int.ofNat n
  | '+' :: cs => (naturalText cs).map Int.ofNat
  | cs => (naturalText cs).map Int.ofNat

/-- **The integer that an amount is**: a whole number, or a decimal text with or without blanks around
it. -/
def sentInteger : Option Payload → Option Int
  | some (.number (.finite x)) => if x.den = 1 then some x.num else none
  | some (.string s) => decimalText (BigInt.trim s)
  | _ => none

/-! ## What is to be said of a bet -/

variable {Selection Result : Type}

/-- **A bet is handled**, whether or not an acknowledgement is asked for: nothing is thrown, it is
acknowledged once, placed for the integer that was sent, and refused where none was. -/
structure HandlesBet (game : Game Selection Result) (data : SocketData) (payload : Payload) : Prop where
  thrown : ∀ ack, (placeBetHandler game data ack payload).thrown = none
  acks : ∀ ack, (placeBetHandler game data ack payload).acks.length = if ack then 1 else 0
  placed : ∀ ack, ∀ call ∈ (placeBetHandler game data ack payload).placed,
    sentInteger (payload.property "amountMicro") = some call.amountMicro
  refused : sentInteger (payload.property "amountMicro") = none →
    ∀ ack, (placeBetHandler game data ack payload).placed = [] ∧
      (placeBetHandler game data ack payload).acks =
        if ack then [.refused "invalid_envelope"] else []

/-- Whether the flags of an envelope are read. -/
def flagsValid (payload : Payload) : Bool :=
  (optionalBoolean (payload.property "autoplay")).isSome &&
    (optionalBoolean (payload.property "turbo")).isSome

/-- **The bets that are handled**: the amount is an integer, or neither a number nor a text; where it is
a fraction, or a text that is not decimal but converts, a flag is in the way. -/
def Convertible (payload : Payload) : Prop :=
  match payload.property "amountMicro" with
  | some (.number (.finite x)) => x.den = 1 ∨ flagsValid payload = false
  | some (.number (.infinite _)) => False
  | some (.string s) => (decimalText (BigInt.trim s)).isSome = true ∨
      ((BigInt.ofText s).isSome = true ∧ flagsValid payload = false)
  | _ => True

/-! ## Conversions -/

/-- Whole numbers are rounded to themselves. -/
theorem round_of_den_eq_one {x : Rat} (h : x.den = 1) : round x = x.num := by
  have hx : x = (x.num : Rat) := (Rat.den_eq_one_iff x).mp h |>.symm
  rw [round, hx, Rat.num_intCast, Int.floor_intCast_add]
  norm_num

/-- A text is read as it is without the blanks around it. -/
theorem ofText_congr {s t : List Char} (h : BigInt.trim s = BigInt.trim t) :
    BigInt.ofText s = BigInt.ofText t := by
  rw [BigInt.ofText, BigInt.ofText, h]

theorem naturalText_eq_some {cs : List Char} {n : Nat} (h : naturalText cs = some n) :
    cs ≠ [] ∧ (∀ c ∈ cs, c.isDigit = true) ∧ Nat.ofDigitChars 10 cs 0 = n := by
  unfold naturalText at h
  split at h
  · next hdigits => exact ⟨hdigits.1, hdigits.2, Option.some.inj h⟩
  · cases h

/-- **Decimal texts are read as the integer they show.** -/
theorem ofText_of_decimalText {s : List Char} {n : Int} (h : decimalText (BigInt.trim s) = some n) :
    BigInt.ofText s = some n := by
  unfold decimalText at h
  split at h
  · next cs htrim =>
    obtain ⟨m, hm, rfl⟩ := Option.map_eq_some_iff.mp h
    obtain ⟨hne, hdigits, rfl⟩ := naturalText_eq_some hm
    rw [BigInt.ofText, htrim]
    show (BigInt.digits 10 cs).map _ = _
    rw [BigInt.digits_of_isDigit hne hdigits]
    rfl
  · next cs htrim =>
    obtain ⟨m, hm, rfl⟩ := Option.map_eq_some_iff.mp h
    obtain ⟨hne, hdigits, rfl⟩ := naturalText_eq_some hm
    rw [BigInt.ofText, htrim]
    show (BigInt.digits 10 cs).map _ = _
    rw [BigInt.digits_of_isDigit hne hdigits]
    rfl
  · obtain ⟨m, hm, rfl⟩ := Option.map_eq_some_iff.mp h
    obtain ⟨hne, hdigits, rfl⟩ := naturalText_eq_some hm
    -- digits have no blanks around them
    have htrim : BigInt.trim s = BigInt.trim (BigInt.trim s) := by
      obtain ⟨c, cs, hcs⟩ := List.exists_cons_of_ne_nil hne
      rw [hcs] at hdigits ⊢
      exact (BigInt.trim_cons (BigInt.isSpace_of_isDigit (hdigits c List.mem_cons_self))
        fun d hd => hdigits d (List.mem_cons_of_mem c hd)).symm
    rw [ofText_congr htrim, BigInt.ofText_of_isDigit hne hdigits]
    rfl

/-! ## The handler -/

section Handler

variable {game : Game Selection Result} {data : SocketData} {payload : Payload}

/-- An amount that converts to nothing is thrown at the caller. -/
theorem not_handlesBet_of_error {e : List Char} (h : safeParse payload = .error e) :
    ¬ HandlesBet game data payload := by
  intro hhandles
  have hthrown := hhandles.thrown true
  rw [placeBetHandler, h] at hthrown
  cases hthrown

/-- A payload that is no envelope is refused. -/
theorem handlesBet_of_none (h : safeParse payload = .ok none) : HandlesBet game data payload := by
  have hhandler : ∀ ack, placeBetHandler game data ack payload =
      ⟨[], if ack then [.refused "invalid_envelope"] else [], none⟩ := by
    intro ack
    rw [placeBetHandler, h]
  refine ⟨fun ack => ?_, fun ack => ?_, fun ack call hcall => ?_, fun _ ack => ?_⟩
  · rw [hhandler]
  · rw [hhandler]
    cases ack <;> rfl
  · rw [hhandler] at hcall
    cases hcall
  · rw [hhandler]
    exact ⟨rfl, rfl⟩

/-- **An envelope is handled** exactly where its amount is the one that was sent. -/
theorem handlesBet_iff_of_some {envelope : PlaceBetEnvelope}
    (h : safeParse payload = .ok (some envelope))
    (hamount : ∀ n, sentInteger (payload.property "amountMicro") = some n → n = envelope.amountMicro) :
    HandlesBet game data payload ↔ (sentInteger (payload.property "amountMicro")).isSome = true := by
  constructor
  · intro hhandles
    by_contra hnone
    have hrefused := (hhandles.refused (by simpa using hnone) true).2
    rw [placeBetHandler, h] at hrefused
    dsimp only at hrefused
    split at hrefused
    · exact absurd (List.cons.inj hrefused).1 (by simp)
    · exact absurd (List.cons.inj hrefused).1 (by simp)
  · intro hsome
    obtain ⟨n, hn⟩ := Option.isSome_iff_exists.mp hsome
    obtain rfl := hamount n hn
    refine ⟨fun ack => ?_, fun ack => ?_, fun ack call hcall => ?_, fun hnone => ?_⟩
    · rw [placeBetHandler, h]
      dsimp only
      split <;> rfl
    · rw [placeBetHandler, h]
      dsimp only
      split <;> cases ack <;> rfl
    · rw [placeBetHandler, h] at hcall
      dsimp only at hcall
      split at hcall
      · cases hcall
      · rw [List.mem_singleton.mp hcall]
        exact hn
    · rw [hn] at hnone
      cases hnone

/-- What is read of an object whose amount converts: an envelope where its flags are read. -/
theorem safeParse_of_amount {es : List (String × Payload)} {n : Int}
    (h : amountMicro (es.lookup "amountMicro") = .ok (some n)) :
    (flagsValid (.object es) = false ∧ safeParse (.object es) = .ok none) ∨
      (flagsValid (.object es) = true ∧ ∃ envelope, safeParse (.object es) = .ok (some envelope) ∧
        envelope.amountMicro = n) := by
  unfold safeParse flagsValid
  dsimp only [Payload.property]
  rw [h]
  cases optionalBoolean (es.lookup "autoplay") with
  | none => exact .inl ⟨rfl, rfl⟩
  | some autoplay =>
      cases optionalBoolean (es.lookup "turbo") with
      | none => exact .inl ⟨rfl, rfl⟩
      | some turbo => exact .inr ⟨rfl, _, rfl, rfl⟩

/-- **An amount that converts** is handled exactly where it is the one that was sent, or a flag is in the
way. -/
theorem handlesBet_iff_of_amount {es : List (String × Payload)} {n : Int}
    (h : amountMicro (es.lookup "amountMicro") = .ok (some n))
    (hamount : ∀ m, sentInteger (es.lookup "amountMicro") = some m → m = n) :
    HandlesBet game data (.object es) ↔
      (sentInteger (es.lookup "amountMicro")).isSome = true ∨ flagsValid (.object es) = false := by
  rcases safeParse_of_amount h with ⟨hflags, hparse⟩ | ⟨hflags, envelope, hparse, rfl⟩
  · exact iff_of_true (handlesBet_of_none hparse) (.inr hflags)
  · rw [handlesBet_iff_of_some hparse hamount, hflags]
    simp [Payload.property]

end Handler

end YantraRgs.Socket
