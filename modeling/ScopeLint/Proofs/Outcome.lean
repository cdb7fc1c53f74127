import Mathlib.Data.List.Forall2

/-!
When computations that may fail succeed: one after the other, for each element of a list, and
along a list with a state.
-/

namespace Except

variable {Error Other Value Result : Type}

theorem exists_of_bind {first : Except Error Value} {next : Value → Except Error Result}
    {result : Result} (success : (first >>= next) = .ok result) :
    ∃ value, first = .ok value ∧ next value = .ok result := by
  cases first with
  | error error => cases success
  | ok value => exact ⟨value, rfl, success⟩

theorem exists_bind_iff {first : Except Error Value} {next : Value → Except Error Result} :
    (∃ made, first >>= next = .ok made) ↔ ∃ value, first = .ok value ∧ ∃ made, next value = .ok made := by
  constructor
  · rintro ⟨made, done⟩
    obtain ⟨value, begun, ended⟩ := exists_of_bind done
    exact ⟨value, begun, made, ended⟩
  · rintro ⟨value, rfl, made, ended⟩
    exact ⟨made, ended⟩

theorem exists_map_iff {outcome : Except Error Value} {make : Value → Result} :
    (∃ made, outcome >>= (fun value => pure (make value)) = .ok made) ↔
      ∃ value, outcome = .ok value := by
  rw [exists_bind_iff]
  exact exists_congr fun value => and_iff_left ⟨make value, rfl⟩

theorem exists_of_toOption_bind {outcome : Except Error Value} {next : Value → Option Result}
    {result : Result} (given : outcome.toOption.bind next = some result) :
    ∃ value, outcome = .ok value ∧ next value = some result := by
  cases outcome with
  | error problem => cases given
  | ok value => exact ⟨value, rfl, given⟩

theorem exists_of_toOption_map {outcome : Except Error Value} {make : Value → Result}
    {result : Result} (given : outcome.toOption.map make = some result) :
    ∃ value, outcome = .ok value ∧ make value = result := by
  cases outcome with
  | error problem => cases given
  | ok value => exact ⟨value, rfl, Option.some.inj given⟩

/-- What each step of a computation along a list keeps, the whole of it keeps. -/
theorem foldlM_keeps {State Item : Type} {Good : State → Prop}
    (step : State → Item → Except Error State) (items : List Item) (start : State)
    (good : Good start)
    (each : ∀ state item after, item ∈ items → Good state → step state item = .ok after →
      Good after)
    {after : State} (done : items.foldlM step start = .ok after) : Good after := by
  induction items generalizing start with
  | nil =>
      obtain rfl := Except.ok.inj done
      exact good
  | cons item rest induction =>
      rw [List.foldlM_cons] at done
      obtain ⟨middle, first, done⟩ := exists_of_bind done
      apply induction middle (each start item middle List.mem_cons_self good first) _ done
      exact fun state other after member => each state other after (List.mem_cons_of_mem _ member)

end Except

theorem Option.isSome_of_rel {Value Other : Type} {related : Value → Other → Prop}
    {value : Option Value} {other : Option Other} (rel : Option.Rel related value other) :
    other.isSome = value.isSome := by
  cases rel <;> rfl
