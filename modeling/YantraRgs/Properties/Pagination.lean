import YantraRgs.Properties.Runs
import YantraRgs.Routes.Lists

/-! # Reading a list page by page

A route hands out the row it cut off as the next cursor, and the next request drops the row that the
cursor names. So a client that follows the cursors reads the whole list exactly when the list fits
on one page; of a longer list it loses the row after every page.

* **`readAll_iff`** — for every route, every table and every limit.
* **`readAll_loses`** — two rounds, one row a page. -/

namespace YantraRgs

/-- **A client reads the whole list exactly when it fits on one page**: for each of the five routes,
every content of the tables and every admissible limit. -/
theorem readAll_iff (w : World) (route : ListRoute) (limit : Nat) (hlimit : 1 ≤ limit)
    (hmax : limit ≤ (route.listing w).maxLimit) (n : Nat)
    (hn : (route.listing w).rows.length < n) :
    (route.listing w).readAll (some limit) n = some (route.listing w).rows ↔
      (route.listing w).rows.length ≤ limit := by
  have hpage : ∀ cursor, ((route.listing w).page (some limit) cursor).toOption =
      some (Cursor.overshoot limit (route.listing w).rows cursor) := by
    intro cursor
    simp [Listing.page, hlimit, hmax, Except.toOption]
  simp only [Listing.readAll, hpage]
  exact Cursor.readable_iff limit (route.listing w).nodup hn

namespace Sample

/-- A round of the dice game, created at the given time. -/
def roundAt (now : Millis) : Round :=
  GameEngine.newRound site (engine 0 0) dice (0, GameEngine.newSession (engine 0 0) 0 0 0) 1
    (some (.dice 1 1)) now

/-- A world with two rounds. -/
def twoRounds : World :=
  { start.world with rounds := [roundAt 10, roundAt 20] }

end Sample

/-- Two rounds on one page are both read. -/
theorem readAll_two : ((ListRoute.rounds 0 none none).listing Sample.twoRounds).readAll (some 2) 3 =
    some ((ListRoute.rounds 0 none none).listing Sample.twoRounds).rows :=
  (readAll_iff Sample.twoRounds (.rounds 0 none none) 2 (by decide) (by decide) 3
    (by decide)).mpr (by decide)

/-- **A row is lost** when two rounds are read one row a page, however many pages are asked for. -/
theorem readAll_loses : ∃ (w : World) (route : ListRoute) (limit : Nat), 1 ≤ limit ∧
    limit ≤ (route.listing w).maxLimit ∧
    ∀ n, (route.listing w).readAll (some limit) n ≠ some (route.listing w).rows := by
  refine ⟨Sample.twoRounds, .rounds 0 none none, 1, by decide, by decide, fun n => ?_⟩
  match n with
  | 0 => decide
  | 1 => decide
  | n + 2 =>
      have h : ((ListRoute.rounds 0 none none).listing Sample.twoRounds).readAll (some 1) (n + 2) =
          some [(1, Sample.roundAt 20)] := by rfl
      rw [h]
      decide

end YantraRgs
