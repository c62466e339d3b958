/-! When a computation that may fail succeeds, and when it fails. -/

namespace Formulary.Result

variable {ε α β : Type}

theorem bind_eq_ok_iff {first : Except ε α} {next : α → Except ε β} {result : β} :
    (first >>= next) = .ok result ↔ ∃ value, first = .ok value ∧ next value = .ok result := by
  cases first <;> simp [bind, Except.bind]

theorem map_eq_ok_iff {first : Except ε α} {f : α → β} {result : β} :
    first.map f = .ok result ↔ ∃ value, first = .ok value ∧ f value = result := by
  cases first <;> simp [Except.map]

theorem map_map {γ : Type} (first : Except ε α) (f : α → β) (g : β → γ) :
    (first.map f).map g = first.map fun value => g (f value) := by
  cases first <;> rfl

theorem mapError_eq_ok_iff {δ : Type} {first : Except ε α} {f : ε → δ} {result : α} :
    first.mapError f = .ok result ↔ first = .ok result := by
  cases first with
  | ok value => exact ⟨fun h => congrArg _ (Except.ok.inj h), fun h => congrArg _ (Except.ok.inj h)⟩
  | error error => exact ⟨nofun, nofun⟩

theorem bind_eq_error_iff {first : Except ε α} {next : α → Except ε β} {error : ε} :
    (first >>= next) = .error error ↔
      first = .error error ∨ ∃ value, first = .ok value ∧ next value = .error error := by
  cases first <;> simp [bind, Except.bind]

theorem mapError_eq_error_iff {δ : Type} {first : Except ε α} {f : ε → δ} {error : δ} :
    first.mapError f = .error error ↔ ∃ fault, first = .error fault ∧ f fault = error := by
  constructor
  · intro h
    cases first with
    | ok value => cases h
    | error fault => exact ⟨fault, rfl, Except.error.inj h⟩
  · rintro ⟨fault, rfl, rfl⟩
    rfl

@[simp]
theorem ok_bind (value : α) (next : α → Except ε β) : (Except.ok value >>= next) = next value := rfl

@[simp]
theorem map_ok (f : α → β) (value : α) : f <$> (Except.ok value : Except ε α) = .ok (f value) := rfl

theorem pure_eq_ok_iff {value result : α} : (pure value : Except ε α) = .ok result ↔ value = result := by
  simp [pure, Except.pure]

theorem toOption_eq_some_iff {first : Except ε α} {value : α} : first.toOption = some value ↔ first = .ok value := by
  cases first <;> simp [Except.toOption]

theorem exists_ok_of_isSome {first : Except ε α} (h : first.toOption.isSome = true) : ∃ value, first = .ok value :=
  (Option.isSome_iff_exists.1 h).imp fun _ => toOption_eq_some_iff.1

/-- Two computations that succeed together, with results that agree under a map. -/
theorem toOption_map_eq {f : α → β} {first second : Except ε α}
    (forth : ∀ value, first = .ok value → ∃ value', second = .ok value' ∧ f value' = f value)
    (back : ∀ value, second = .ok value → ∃ value', first = .ok value' ∧ f value' = f value) :
    second.toOption.map f = first.toOption.map f := by
  cases first with
  | ok value =>
    obtain ⟨value', rfl, same⟩ := forth value rfl
    exact congrArg some same
  | error error =>
    cases second with
    | ok value =>
      obtain ⟨value', h, -⟩ := back value rfl
      contradiction
    | error error => rfl

/-- How a computation fails, if it does. -/
def error? : Except ε α → Option ε
  | .ok _ => none
  | .error error => some error

theorem error?_eq_some_iff {first : Except ε α} {error : ε} : error? first = some error ↔ first = .error error := by
  cases first <;> simp [error?]

@[simp]
theorem error?_map (first : Except ε α) (f : α → β) : error? (do return f (← first)) = error? first := by
  cases first <;> rfl

/-- If what comes later fails alike after every result, the first failure counts. -/
theorem error?_bind {first : Except ε α} {next : α → Except ε β} {later : Option ε}
    (h : ∀ value, error? (next value) = later) : error? (first >>= next) = (error? first).or later := by
  cases first with
  | ok value => exact h value
  | error error => rfl

/-- Two computations that succeed together and with the same result. How they fail is not compared. -/
def Alike (first second : Except ε α) : Prop :=
  first.toOption = second.toOption

namespace Alike

variable {first second : Except ε α}

theorem refl (first : Except ε α) : Alike first first := rfl

theorem bind {next next' : α → Except ε β} (h : Alike first second)
    (hnext : ∀ value, Alike (next value) (next' value)) : Alike (first >>= next) (second >>= next') := by
  cases first with
  | ok value =>
    cases second with
    | ok value' =>
      obtain rfl : value = value' := Option.some.inj h
      exact hnext value
    | error fault => cases h
  | error fault =>
    cases second with
    | ok value' => cases h
    | error fault' => rfl

theorem mapError {δ : Type} {f : ε → δ} (h : Alike first second) : Alike (first.mapError f) (second.mapError f) := by
  cases first <;> cases second <;> first | rfl | exact h

end Alike

/-- Two computations that succeed together, with results that are related, or fail together. -/
def Both (R : α → β → Prop) : Except ε α → Except ε β → Prop
  | .ok value, .ok value' => R value value'
  | .error _, .error _ => True
  | _, _ => False

namespace Both

variable {γ δ : Type} {R : α → β → Prop} {S : γ → δ → Prop} {first : Except ε α} {second : Except ε β}

theorem bind {next : α → Except ε γ} {next' : β → Except ε δ} (h : Both R first second)
    (hnext : ∀ value value', first = .ok value → R value value' → Both S (next value) (next' value')) :
    Both S (first >>= next) (second >>= next') := by
  cases first with
  | ok value =>
    cases second with
    | ok value' => exact hnext value value' rfl h
    | error fault => exact h.elim
  | error fault =>
    cases second with
    | ok value' => exact h.elim
    | error fault' => trivial

theorem imp {S : α → β → Prop} (h : Both R first second)
    (related : ∀ value value', first = .ok value → R value value' → S value value') : Both S first second := by
  cases first with
  | ok value =>
    cases second with
    | ok value' => exact related value value' rfl h
    | error fault => exact h.elim
  | error fault =>
    cases second with
    | ok value' => exact h.elim
    | error fault' => trivial

theorem results (h : Both R first second) :
    Both (fun value value' => first = .ok value ∧ second = .ok value' ∧ R value value') first second := by
  cases first with
  | ok value =>
    cases second with
    | ok value' => exact ⟨rfl, rfl, h⟩
    | error fault => exact h.elim
  | error fault =>
    cases second with
    | ok value' => exact h.elim
    | error fault' => trivial

theorem map {f : α → γ} {g : β → δ} (h : Both R first second)
    (related : ∀ value value', first = .ok value → R value value' → S (f value) (g value')) :
    Both S (first.map f) (second.map g) :=
  h.bind related

theorem toOption_map_eq {f : α → γ} {g : β → γ} (h : Both (fun value value' => g value' = f value) first second) :
    second.toOption.map g = first.toOption.map f := by
  cases first with
  | ok value =>
    cases second with
    | ok value' => exact congrArg some h
    | error fault => exact h.elim
  | error fault =>
    cases second with
    | ok value' => exact h.elim
    | error fault' => rfl

theorem of_toOption_map_eq {f : α → γ} {g : β → γ} (h : second.toOption.map g = first.toOption.map f) :
    Both (fun value value' => g value' = f value) first second := by
  cases first with
  | ok value =>
    cases second with
    | ok value' => exact Option.some.inj h
    | error fault => cases h
  | error fault =>
    cases second with
    | ok value' => cases h
    | error fault' => trivial

end Both

end Formulary.Result
